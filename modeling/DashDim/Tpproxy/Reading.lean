import DashDim.Tpproxy.Keeping

/-!
# What a connection reads in an event

A connection hands on the frames that are complete, and keeps the part of the next one. An
event is spoken of by the frames that the connection gets to know in it, and by what is left
then (`framesOf`).

* `deliver_rest`, `onReadEvent_frames`: what is left when it has handed on frames, and read;
* `writable_kept`: what writing leaves, as what was read.
-/

namespace DashDim

namespace Mpproxy

namespace World

variable {w : World} {c : ℕ}

/-! ## What is left of a frame -/

/-- The part of a frame that is left when a connection has handed on the others. -/
def rest (c : ℕ) (w : World) : Bytes := (w.frames c).2

/-- It has no frame at its start. -/
theorem frames_of_rest {w' : World} (h : (w'.connections c).fdReadBuffer = w.rest c) :
    w'.frames c = ([], w.rest c) := by
  have hnone : tpFraming.parse (w.rest c) = none := Framing.parse_drain _
  rw [frames, h, Framing.drain_of_none hnone]

theorem deliver_rest (c : ℕ) (w : World) :
    Outcome (fun w' => (w'.connections c).fdReadBuffer = w.rest c) (fun _ => True)
      (w.deliver c) := by
  rw [deliver_eq]
  refine (Outcome.triv _).bind fun w₁ _ => (Outcome.triv _).bind fun w₂ _ => ?_
  change ((w₂.updateConnection c _).connections c).fdReadBuffer = _
  rw [updateConnection_self]
  rfl

/-- What is read is handed on, or still to be handed on. -/
theorem onReadEvent_frames (hfd : (w.connections c).fd > 0) (reads : List ReadResult) :
    Outcome (fun w' => (w'.frames c).1 ⊆ (w.framesRead c reads).1 ∧
      w'.rest c = (w.framesRead c reads).2) (fun _ => True) (w.connectionOnReadEvent c reads) := by
  have hread : ∀ {w' : World}, (w'.connections c).fdReadBuffer =
      (w.connections c).fdReadBuffer ++ ReadResult.bytes reads →
      w'.frames c = w.framesRead c reads := by
    intro w' h
    rw [frames, h]
    rfl
  rw [connectionOnReadEvent, if_pos hfd]
  refine Outcome.bind (P := fun w' => (w'.connections c).fdReadBuffer =
    (w.connections c).fdReadBuffer ++ ReadResult.bytes reads) ?_ fun w₁ h₁ =>
      Outcome.bind (P := fun w' => (w'.frames c).1 ⊆ (w.framesRead c reads).1 ∧
        w'.rest c = (w.framesRead c reads).2) ?_ fun w₂ h₂ => ?_
  · split_ifs
    · change ((World.updateConnection _ _ _).connections c).fdReadBuffer = _
      rw [updateConnection_self, TcpConnectionBase.closeFd, SocketBase.closeFd_fdReadBuffer,
        updateConnection_self]
      rfl
    · trivial
    · change ((World.updateConnection _ _ _).connections c).fdReadBuffer = _
      rw [updateConnection_self]
      rfl
  · split_ifs
    · have hframes : w₁.frames c = w.framesRead c reads := hread h₁
      exact ⟨fun f hf => hframes ▸ hf, congrArg Prod.snd hframes⟩
    · have hrest : w₁.rest c = (w.framesRead c reads).2 := congrArg Prod.snd (hread h₁)
      refine (deliver_rest c w₁).mono (fun w' h' => ?_) fun _ he => he
      rw [rest, frames_of_rest h']
      exact ⟨List.nil_subset _, hrest⟩
  · split_ifs
    · trivial
    · exact h₂

/-- The frames that a connection gets to know in an event, and what is left then. -/
def framesOf (c : ℕ) (input : Bool) (reads : List ReadResult) (w : World) : List Frame × Bytes :=
  w.framesRead c (if input then reads else [])

theorem framesOf_false (c : ℕ) (reads : List ReadResult) (w : World) :
    w.framesOf c false reads = w.frames c := by
  rw [framesOf, if_neg Bool.false_ne_true, framesRead, frames]
  exact congrArg tpFraming.drain (List.append_nil _)

/-! ## Writing -/

section kept

variable {α : Type} (g : TcpConnectionBase → α)

/-- What no write of a connection changes is kept by them. -/
theorem writes_kept (hwrite : ∀ {f x}, WriteOp f → g (f x) = g x) (c : ℕ) (a : α) :
    Writes (fun w => g (w.connections c) = a) fun _ => True where
  packet := trivial
  deleted := trivial
  calls _ h := h
  write {w} c' f hop h := by
    rcases eq_or_ne c c' with rfl | hc
    · rw [updateConnection_self, hwrite hop]
      exact h
    · rw [updateConnection_ne w c' f hc]
      exact h

theorem writable_kept (hwrite : ∀ {f x}, WriteOp f → g (f x) = g x)
    (hconnected : ∀ x, g { x with isConnected := true, connecting := false } = g x) (c : ℕ)
    (w : World) :
    Outcome (fun w' => g (w'.connections c) = g (w.connections c)) (fun _ => True)
      (w.connectionPart c .writable) := by
  refine (writes_kept g hwrite c (g (w.connections c))).writable (fun _ => ?_) (fun {w s} _ h => ?_)
    rfl
  · rw [updateConnection_self, hconnected]
  · refine Outcome.intro (fun w' hw' => ?_) fun _ _ => trivial
    rw [notifyServer_connections hw']
    exact h

end kept

/-- A write does not touch what a connection is, nor its server. -/
theorem WriteOp.same {f : TcpConnectionBase → TcpConnectionBase} (hop : WriteOp f)
    (x : TcpConnectionBase) : (f x).rejoined = x.rejoined ∧ (f x).role = x.role ∧
      (f x).uuid = x.uuid ∧ (f x).server = x.server := by
  cases hop with
  | onWriteEvent answers => exact ⟨rfl, rfl, rfl, rfl⟩
  | setWriteBuffer wb => exact ⟨rfl, rfl, rfl, rfl⟩
  | connectMsg => exact ⟨rfl, rfl, rfl, rfl⟩

theorem WriteOp.fdReadBuffer {f : TcpConnectionBase → TcpConnectionBase} (hop : WriteOp f)
    (x : TcpConnectionBase) : (f x).fdReadBuffer = x.fdReadBuffer := by
  cases hop with
  | onWriteEvent answers => exact SocketBase.onWriteEvent_fdReadBuffer answers x.toSocketBase
  | setWriteBuffer wb => rfl
  | connectMsg => rfl

theorem writable_readBuffer (c : ℕ) (w : World) :
    Outcome (fun w' => (w'.connections c).fdReadBuffer = (w.connections c).fdReadBuffer)
      (fun _ => True) (w.connectionPart c .writable) :=
  writable_kept (·.fdReadBuffer) (fun hop => hop.fdReadBuffer _) (fun _ => rfl) c w

theorem writable_server (c : ℕ) (w : World) :
    Outcome (fun w' => (w'.connections c).server = (w.connections c).server) (fun _ => True)
      (w.connectionPart c .writable) :=
  writable_kept (·.server) (fun hop => (hop.same _).2.2.2) (fun _ => rfl) c w

end World

end Mpproxy

end DashDim
