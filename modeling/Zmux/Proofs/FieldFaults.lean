import Zmux.Proofs.ParameterFaults
import Zmux.Proofs.FrameTypes

/-! Fields that cannot be read are refused for one of a few reasons, whatever their bytes are. -/

namespace Zmux

open Wire

/-- The reasons for which the fields of a frame are refused. -/
def fieldReasons : List String :=
  ["truncated frame", "truncated varint", "stream offset beyond 2^62-1",
    "reliable size above final size", "MAX_STREAMS above 2^60", "STREAMS_BLOCKED above 2^60",
    "GOAWAY count above 2^60", "PRIORITY_UPDATE reserved bits set",
    "PIPE_JOIN locator length out of range", "PIPE_JOIN invalid direction",
    "PIPE_JOIN reserved flag set", "PIPE_ACK without entries",
    "PIPE_ACK entries not in strictly increasing (Pipe ID, Lane) order",
    "PIPE_STATUS invalid status"]

/-- A frame encoding error for one of these reasons. -/
def FieldFault (fault : Failure) : Prop := ∃ reason ∈ fieldReasons, fault = .decodeError FE reason

/-- An error with a listed reason. -/
theorem fieldFault_listed {reason : String} (listed : reason ∈ fieldReasons) :
    FieldFault (.decodeError FE reason) := ⟨reason, listed, rfl⟩

/-- A frame that is cut off is one of the listed failures. -/
theorem truncatedFrame_listed : FieldFault truncatedFrame :=
  fieldFault_listed (by simp [fieldReasons])

/-- Taking so many bytes fails with a listed failure only. -/
theorem take_faults (n : Nat) : (take n).Faults FieldFault := by
  -- Bytes that are missing are a truncated frame.
  intro window
  refine Wire.Faults.map _ (Wire.Faults.bind (faults_raiseIf fun _ => truncatedFrame_listed) ?_)
  intro _ _
  exact faults_ok _

/-- Taking one byte fails with a listed failure only. -/
theorem octet_faults : octet.Faults FieldFault := by
  -- The look-up comes behind the check that there is a byte.
  intro window
  refine Wire.Faults.map _ (Wire.Faults.bind (faults_raiseIf fun _ => truncatedFrame_listed) ?_)
  intro _ checked
  -- A byte that is needed and there is found.
  have below : 0 < window.length := by
    have enough := raiseIf_eq_ok.mp checked
    omega
  have found : item window 0 = .ok window[0] := by simp [item, below]
  rw [found, ok_bind]
  exact faults_ok _

/-- Taking the rest does not fail. -/
theorem rest_faults : rest.Faults FieldFault := by
  -- Reading what there is cannot fail.
  intro window
  rw [rest_on]
  exact faults_ok _

/-- An integer is truncated at the end of its record, in one wording or the other. -/
theorem readV_faults : readV.Faults FieldFault := by
  intro window
  refine Wire.Faults.map _ (Wire.Faults.bind (faults_raiseIf fun _ => truncatedFrame_listed) ?_)
  intro _ _
  refine Wire.Faults.bind ?_ ?_
  -- The decoder of integers has its own wording for the end of the buffer.
  · intro fault failed
    rw [(decodeVarint_eq_error.mp failed).1]
    exact fieldFault_listed (by simp [fieldReasons])
  intro _ _
  refine Wire.Faults.bind (faults_raiseIf fun _ => truncatedFrame_listed) ?_
  intro _ _
  exact faults_ok _

/-- A part that may be left out fails as its reader does. -/
theorem readWhen_faults {α : Type} {sent : Bool} {reader : Scan Failure α} {absent : α}
    (holds : reader.Faults FieldFault) : (readWhen sent reader absent).Faults FieldFault :=
  holds.ite (Scan.faults_pure _)

/-- Data with or without a length fails with a listed failure only. -/
theorem readData_faults (hasLen : Bool) : (readData hasLen).Faults FieldFault :=
  Scan.Faults.ite (.bind readV_faults take_faults) rest_faults

section Fields

variable (code : Nat)

/-- The fields of STREAM fail with a listed failure only. -/
theorem readStream_faults : (readStream code).Faults FieldFault := by
  -- Each field may be truncated, and the end of the data is checked.
  apply Scan.Faults.bind readV_faults
  intro id
  refine (readWhen_faults readV_faults).bind ?_
  intro off
  refine (readData_faults _).bind ?_
  intro data
  apply Scan.Faults.check (fieldFault_listed (by simp [fieldReasons]))
  intro _
  exact Scan.faults_pure _

/-- The fields of RESET_STREAM_AT fail with a listed failure only. -/
theorem readResetStreamAt_faults : readResetStreamAt.Faults FieldFault := by
  -- Four integers may be truncated, and the last two are compared.
  apply Scan.Faults.bind readV_faults
  intro id
  apply Scan.Faults.bind readV_faults
  intro code
  apply Scan.Faults.bind readV_faults
  intro finalSize
  apply Scan.Faults.bind readV_faults
  intro reliableSize
  apply Scan.Faults.check (fieldFault_listed (by simp [fieldReasons]))
  intro _
  exact Scan.faults_pure _

/-- The fields of MAX_STREAMS fail with a listed failure only. -/
theorem readMaxStreams_faults : (readMaxStreams code).Faults FieldFault := by
  -- The bound is the one thing to check.
  apply Scan.Faults.bind readV_faults
  intro max
  apply Scan.Faults.check (fieldFault_listed (by simp [fieldReasons]))
  intro _
  exact Scan.faults_pure _

/-- The fields of STREAMS_BLOCKED fail with a listed failure only. -/
theorem readStreamsBlocked_faults : (readStreamsBlocked code).Faults FieldFault := by
  -- The bound is the one thing to check.
  apply Scan.Faults.bind readV_faults
  intro limit
  apply Scan.Faults.check (fieldFault_listed (by simp [fieldReasons]))
  intro _
  exact Scan.faults_pure _

/-- The fields of CONNECTION_CLOSE fail with a listed failure only. -/
theorem readConnectionClose_faults : (readConnectionClose code).Faults FieldFault := by
  -- Nothing is checked beyond the ends of the fields.
  apply Scan.Faults.bind readV_faults
  intro cause
  refine (readWhen_faults (.bind readV_faults fun _ => Scan.faults_pure _)).bind ?_
  intro frameType
  refine (readData_faults _).bind ?_
  intro reason
  exact Scan.faults_pure _

/-- The fields of DATAGRAM fail with a listed failure only. -/
theorem readDatagram_faults : (readDatagram code).Faults FieldFault := by
  -- The data may run past the end of the record.
  refine (readData_faults _).bind ?_
  intro data
  exact Scan.faults_pure _

/-- The fields of QX_PING fail with a listed failure only. -/
theorem readPing_faults : (readPing code).Faults FieldFault := by
  apply Scan.Faults.bind readV_faults
  intro seq
  exact Scan.faults_pure _

/-- The fields of GOAWAY fail with a listed failure only. -/
theorem readGoaway_faults : readGoaway.Faults FieldFault := by
  -- The counts are checked when all three integers are there.
  apply Scan.Faults.bind readV_faults
  intro maxBidi
  apply Scan.Faults.bind readV_faults
  intro maxUni
  apply Scan.Faults.bind readV_faults
  intro code
  apply Scan.Faults.check (fieldFault_listed (by simp [fieldReasons]))
  intro _
  exact Scan.faults_pure _

/-- The fields of PRIORITY_UPDATE fail with a listed failure only. -/
theorem readPriorityUpdate_faults : readPriorityUpdate.Faults FieldFault := by
  -- The reserved bits of the last byte are checked.
  apply Scan.Faults.bind readV_faults
  intro id
  apply Scan.Faults.bind readV_faults
  intro seq
  apply Scan.Faults.bind octet_faults
  intro b
  apply Scan.Faults.check (fieldFault_listed (by simp [fieldReasons]))
  intro _
  exact Scan.faults_pure _

/-- The fields of PIPE_JOIN fail with a listed failure only. -/
theorem readJoin_faults : readJoin.Faults FieldFault := by
  -- The three checks come where their bytes have been read, and the rest may be truncated.
  apply Scan.Faults.bind octet_faults
  intro ln
  apply Scan.Faults.check (fieldFault_listed (by simp [fieldReasons]))
  intro _
  refine (take_faults _).bind ?_
  intro locator
  apply Scan.Faults.bind readV_faults
  intro pipe
  apply Scan.Faults.bind octet_faults
  intro byte
  apply Scan.Faults.check (fieldFault_listed (by simp [fieldReasons]))
  intro direction
  apply Scan.Faults.check (fieldFault_listed (by simp [fieldReasons]))
  intro _
  -- Two bits that are not both set name a direction.
  have named : ∃ direction, entry pipeDirections (byte.toNat &&& 0x03) = .ok direction := by
    have bits : byte.toNat &&& 0x03 = byte.toNat % 4 := Nat.and_two_pow_sub_one_eq_mod _ 2
    have small : byte.toNat % 4 < 4 := Nat.mod_lt _ (by decide)
    rw [bits] at direction ⊢
    have three : byte.toNat % 4 = 0 ∨ byte.toNat % 4 = 1 ∨ byte.toNat % 4 = 2 := by omega
    rcases three with bits | bits | bits <;> rw [bits] <;> exact ⟨_, rfl⟩
  obtain ⟨direction, found⟩ := named
  rw [found]
  refine (Scan.faults_lift (faults_ok _)).bind ?_
  intro _
  apply Scan.Faults.bind readV_faults
  intro fateGroup
  apply Scan.Faults.bind readV_faults
  intro priority
  refine (take_faults _).bind ?_
  intro token
  exact Scan.faults_pure _

/-- An entry of an acknowledgement fails with a listed failure only. -/
theorem readEntry_faults : readEntry.Faults FieldFault := by
  -- Four integers may be truncated.
  apply Scan.Faults.bind readV_faults
  intro pipe
  apply Scan.Faults.bind readV_faults
  intro lane
  apply Scan.Faults.bind readV_faults
  intro position
  apply Scan.Faults.bind readV_faults
  intro delay
  exact Scan.faults_pure _

/-- However many entries are announced, each is read or refused before the next. -/
theorem readEntries_faults (count : Nat) (last : Option AckEntry) :
    (readEntries count last).Faults FieldFault := by
  -- The induction is on the number of entries left, so a large count is no danger by itself.
  induction count generalizing last with
  | zero => exact Scan.faults_pure _
  | succ count ih =>
    apply Scan.Faults.bind readEntry_faults
    intro e
    apply Scan.Faults.check (fieldFault_listed (by simp [fieldReasons]))
    intro _
    refine (ih (some e)).bind ?_
    intro entries
    exact Scan.faults_pure _

/-- The fields of PIPE_ACK fail with a listed failure only. -/
theorem readAck_faults : readAck.Faults FieldFault := by
  -- A count of zero is refused before any entry is read.
  apply Scan.Faults.bind readV_faults
  intro n
  apply Scan.Faults.check (fieldFault_listed (by simp [fieldReasons]))
  intro _
  refine (readEntries_faults _ _).bind ?_
  intro entries
  exact Scan.faults_pure _

/-- The fields of PIPE_LANE fail with a listed failure only. -/
theorem readLane_faults : readLane.Faults FieldFault := by
  -- Nothing is checked beyond the ends of the fields.
  refine (take_faults _).bind ?_
  intro key
  apply Scan.Faults.bind readV_faults
  intro pipe
  apply Scan.Faults.bind readV_faults
  intro lane
  exact Scan.faults_pure _

/-- The fields of PIPE_STATUS fail with a listed failure only. -/
theorem readStatus_faults : readStatus.Faults FieldFault := by
  -- The check of the status comes before its look-up.
  apply Scan.Faults.bind readV_faults
  intro pipe
  apply Scan.Faults.bind readV_faults
  intro seq
  apply Scan.Faults.bind readV_faults
  intro st
  apply Scan.Faults.bind readV_faults
  intro priority
  apply Scan.Faults.check (fieldFault_listed (by simp [fieldReasons]))
  intro listed
  -- A status that passes the check is in the dictionary.
  obtain ⟨status, found⟩ := Option.ne_none_iff_exists'.mp listed
  have named : entry pipeStatusValues st = .ok status := by rw [entry, found]
  rw [named]
  refine (Scan.faults_lift (faults_ok _)).bind ?_
  intro _
  exact Scan.faults_pure _

end Fields

/-- A frame of one integer fails as the integer does. -/
theorem numbers1_faults {build : Nat → Frame} :
    (readV >>= fun first => pure (build first)).Faults FieldFault :=
  .bind readV_faults fun _ => Scan.faults_pure _

/-- A frame of two integers fails as one of them does. -/
theorem numbers2_faults {build : Nat → Nat → Frame} :
    (readV >>= fun first => readV >>= fun second => pure (build first second)).Faults FieldFault :=
  .bind readV_faults fun _ => numbers1_faults

end Zmux
