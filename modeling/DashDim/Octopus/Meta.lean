import DashDim.Codec.RoundTrip
import DashDim.Octopus.Proxy

/-!
# The first message of a hand

It has fourteen bytes, and tells a server which connection it is about.

* `readMeta_metaMessage`: the server reads the session that the client wrote;
* `readMeta_eq_none`: it does not act on a part of the message.
-/

namespace DashDim

namespace Octopus

namespace World

/-- The writes of `writeMeta`. -/
def metaWrites (spFlag : Bool) (uuid : OctopusSessionKey) : List Write :=
  [.uInt8 octopusMsgMeta, .uInt8 (if spFlag then 1 else 0), .uInt32 uuid.fromAddr,
    .uInt32 uuid.toAddr, .uInt16 uuid.srcPort, .uInt16 uuid.dstPort]

theorem metaWrites_length (spFlag : Bool) (uuid : OctopusSessionKey) (e : Endianness) :
    ((metaWrites spFlag uuid).flatMap (Write.image e)).length = 14 := by
  simp [metaWrites, Write.image]

theorem metaMessage_eq (spFlag : Bool) (uuid : OctopusSessionKey) :
    metaMessage spFlag uuid =
      (metaWrites spFlag uuid).flatMap (Write.image .networkByteOrder) := by
  have hfixed : ∀ op ∈ metaWrites spFlag uuid, op.Fixed := by
    simp [metaWrites, Write.Fixed]
  have hroom : ((metaWrites spFlag uuid).flatMap (Write.image .networkByteOrder)).length ≤
      (List.replicate kBufferSize (0 : UInt8)).length := by
    rw [metaWrites_length, List.length_replicate]
    decide
  obtain ⟨w, hw, hwritten, -⟩ := written_of_fixed hfixed hroom
  have hmessage : metaMessage spFlag uuid = w.written := congrArg (fun p => p.2.written) hw
  exact hmessage.trans hwritten

@[simp] theorem metaMessage_length (spFlag : Bool) (uuid : OctopusSessionKey) :
    (metaMessage spFlag uuid).length = 14 := by
  rw [metaMessage_eq, metaWrites_length]

/-- The reads of `readMeta`. -/
def metaRead : Read (Bool × OctopusSessionKey) :=
  Read.andThen DataReader.readUInt8 fun _ =>
  Read.andThen DataReader.readUInt8 fun sp =>
  Read.andThen DataReader.readUInt32 fun fromAddr =>
  Read.andThen DataReader.readUInt32 fun toAddr =>
  Read.andThen DataReader.readUInt16 fun srcPort =>
  Read.map (fun dstPort => (sp != 0, ⟨fromAddr, toAddr, srcPort, dstPort⟩))
    DataReader.readUInt16

theorem metaRead_takes (spFlag : Bool) (uuid : OctopusSessionKey) :
    metaRead.Takes (metaMessage spFlag uuid) (spFlag, uuid) := by
  have himage : metaMessage spFlag uuid = [octopusMsgMeta] ++ ([if spFlag then 1 else 0] ++
      (uIntImage .networkByteOrder 4 uuid.fromAddr.toNat ++
      (uIntImage .networkByteOrder 4 uuid.toAddr.toNat ++
      (uIntImage .networkByteOrder 2 uuid.srcPort.toNat ++
      uIntImage .networkByteOrder 2 uuid.dstPort.toNat)))) := by
    rw [metaMessage_eq]
    simp [metaWrites, Write.image]
  have hvalue : ((if spFlag then (1 : UInt8) else 0) != 0, uuid) = (spFlag, uuid) := by
    cases spFlag <;> rfl
  rw [himage, ← hvalue]
  refine (DataReader.readUInt8_takes _).andThen ?_
  refine (DataReader.readUInt8_takes _).andThen ?_
  refine (DataReader.readUInt32_takes _).andThen ?_
  refine (DataReader.readUInt32_takes _).andThen ?_
  refine (DataReader.readUInt16_takes _).andThen ?_
  exact (DataReader.readUInt16_takes uuid.dstPort).map _

theorem metaRead_advances : metaRead.Advances 14 := by
  have h8 : Read.Advances DataReader.readUInt8 1 :=
    (DataReader.readBytes_advances (by decide)).map _
  have h16 : Read.Advances DataReader.readUInt16 2 :=
    (DataReader.readUInt_advances (by decide)).map _
  have h32 : Read.Advances DataReader.readUInt32 4 :=
    (DataReader.readUInt_advances (by decide)).map _
  exact h8.andThen fun _ => h8.andThen fun _ => h32.andThen fun _ => h32.andThen fun _ =>
    h16.andThen fun _ => h16.map _

theorem readMeta_metaMessage (spFlag : Bool) (uuid : OctopusSessionKey) :
    readMeta (metaMessage spFlag uuid) = some (spFlag, uuid, 0) := by
  have hread := (metaRead_takes spFlag uuid).new (List.append_nil (metaMessage spFlag uuid)).symm
  rw [metaRead] at hread
  rw [readMeta, hread]
  simp [DataReader.bytesRemaining, DataReader.advancePos, DataReader.new]

/-- A part of the message is not enough. -/
theorem readMeta_eq_none {rb : Bytes} (hlen : rb.length < 14) : readMeta rb = none := by
  rw [readMeta]
  split
  · rfl
  · next sp uuid r' hread =>
    obtain ⟨-, hroom⟩ := metaRead_advances _ _ _ hread
    rw [DataReader.bytesRemaining, DataReader.new] at hroom
    dsimp only at hroom
    omega

end World

end Octopus

end DashDim
