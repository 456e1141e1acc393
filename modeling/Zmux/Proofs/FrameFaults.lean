import Zmux.Proofs.FieldFaults
import Zmux.Proofs.FirstRecord

/-! Everything that is not a record, a message or a payload is refused with a protocol error. -/

namespace Zmux

open Wire

/-- A text that is raised only if a frame without a decoder is let through, or an overlong join. -/
def Lost (reason : String) : Prop :=
  reason = "PIPE_JOIN longer than 64 bytes" ∨
  ∃ name : FrameName, reason = s!"no decoder for {name.text}"

/-- What these texts begin with. -/
def lostFronts : List (List Char) := ["PIPE_JOIN lon".toList, "no decoder fo".toList]

/-- A lost reason begins with one of a few fronts. -/
theorem lost_front {reason : String} (lost : Lost reason) :
    reason.toList.take 13 ∈ lostFronts := by
  -- Only the front of the second text is known, since any name may follow it.
  cases lost with
  | inl joined =>
    rw [joined]
    decide
  | inr undecoded =>
    obtain ⟨name, rfl⟩ := undecoded
    have front : (s!"no decoder for {name.text}").toList.take 13 = "no decoder fo".toList := by
      simp only [String.toList_append]
      rfl
    rw [front]
    decide

/-- None of the reasons of a table is one of these texts. -/
theorem kept_of_fronts {reasons : List String}
    (fronts : ∀ reason ∈ reasons, reason.toList.take 13 ∉ lostFronts) {reason : String}
    (listed : reason ∈ reasons) : ¬ Lost reason := by
  -- Fronts that differ make the texts differ.
  intro lost
  exact fronts reason listed (lost_front lost)

/-- A text with another front is not one of these texts. -/
theorem kept_of_front {front reason : String} (begins : reason.toList.take 13 = front.toList)
    (other : front.toList ∉ lostFronts) : ¬ Lost reason := by
  intro lost
  rw [← begins] at other
  exact other (lost_front lost)

/-- A type that is not known is not one of the lost reasons. -/
theorem unknown_kept (code : Nat) : ¬ Lost s!"unknown frame type 0x{hex code}" := by
  have front : (s!"unknown frame type 0x{hex code}").toList.take 13 = "unknown frame".toList := by
    simp only [String.toList_append]
    rfl
  exact kept_of_front front (by decide)

/-- A type that is prohibited is not one of the lost reasons. -/
theorem prohibited_kept (name : FrameName) : ¬ Lost s!"prohibited frame type {name.text}" := by
  -- Whatever the name is, the text begins with a word of its own.
  have front : (s!"prohibited frame type {name.text}").toList.take 13 =
      "prohibited fr".toList := by
    simp only [String.toList_append]
    rfl
  exact kept_of_front front (by decide)

/-- A gate that is shut is not one of the lost reasons. -/
theorem gated_kept (name : FrameName) : ¬ Lost s!"{name.text} not negotiated" := by
  intro lost
  have listed := lost_front lost
  -- The name comes first here, so the fronts are compared name by name.
  revert listed
  cases name <;> decide +kernel

/-- What accounts for the failure of a frame, at the bytes it should begin. -/
inductive Explained (window : Bytes) : Failure → Prop where
  /-- A frame encoding error, for a reason that can occur. -/
  | encoding {reason : String} (kept : ¬ Lost reason) : Explained window (.decodeError FE reason)
  /-- A type that is not in its shortest form. -/
  | wide {code width : Nat} {rest : Bytes} {reason : String} (legal : VarintLegal code width)
      (wide : width ≠ varintShortest code) (begins : window = varintForm code width ++ rest) :
      Explained window (.decodeError PV reason)
  /-- A datagram, which is not negotiated or above its limit. -/
  | datagram {code : Nat} {rest : Bytes} {reason : String} (typed : code = 0x30 ∨ code = 0x31)
      (begins : window = varintForm code (varintShortest code) ++ rest) :
      Explained window (.decodeError PV reason)
  /-- A block of transport parameters, all of it there, that is refused for itself. -/
  | parameters {block rest behind : Bytes} {reason : String} (begins : window = qxTpPrefix ++ rest)
      (counted : Begins varintFormat block.length rest (block ++ behind))
      (refused : decodeTps block = .error (.decodeError TPE reason)) :
      Explained window (.decodeError TPE reason)

variable {enabled : Gates} {limit : Option Nat} {code : Nat} {window : Bytes}

/-- A listed failure of the fields is explained. -/
theorem Explained.field {fault : Failure} (listed : FieldFault fault) : Explained window fault := by
  obtain ⟨reason, listed, rfl⟩ := listed
  exact .encoding (kept_of_fronts (by decide +kernel) listed)

/-- The fields of every frame but one are refused for a listed reason. -/
theorem decodeFields_faults {name : FrameName} (permitted : name ∉ prohibitedNames)
    (fields : name ≠ .padding) (other : name ≠ .qxTransportParameters) :
    (decodeFields name code).Faults FieldFault := by
  -- Each name that is left has a reader of its own, whose failures are listed.
  cases name with
  | padding => exact absurd rfl fields
  | qxTransportParameters => exact absurd rfl other
  | ping | ack | crypto | newToken | newConnectionId | retireConnectionId | pathChallenge
  | pathResponse | handshakeDone => exact absurd (by decide) permitted
  | stream => exact readStream_faults code
  | resetStream => exact .bind readV_faults fun _ => numbers2_faults
  | resetStreamAt => exact readResetStreamAt_faults
  | stopSending => exact numbers2_faults
  | maxData => exact numbers1_faults
  | maxStreamData => exact numbers2_faults
  | maxStreams => exact readMaxStreams_faults code
  | dataBlocked => exact numbers1_faults
  | streamDataBlocked => exact numbers2_faults
  | streamsBlocked => exact readStreamsBlocked_faults code
  | connectionClose => exact readConnectionClose_faults code
  | datagram => exact readDatagram_faults code
  | qxPing => exact readPing_faults code
  | goaway => exact readGoaway_faults
  | priorityUpdate => exact readPriorityUpdate_faults
  | pipeJoin => exact readJoin_faults
  | pipeAck => exact readAck_faults
  | pipeLane => exact readLane_faults
  | pipePing => exact Scan.faults_pure _
  | pipeAbandon => exact numbers2_faults
  | pipeStatus => exact readStatus_faults

/-- A block of transport parameters is truncated, or refused for itself. -/
theorem readTransportParameters_faults {fault : Failure}
    (failed : readTransportParameters.on window = .error fault) : FieldFault fault ∨
      ∃ block behind, Begins varintFormat block.length window (block ++ behind) ∧
        decodeTps block = .error fault := by
  -- The reader fails before the block is whole, or in decoding it.
  simp only [readTransportParameters, Scan.on_bind, bind_eq_error, Scan.on_lift, map_eq_error,
    Scan.on_pure, Prod.exists] at failed
  rcases failed with short | ⟨block, behind, read, refused | ⟨_, _, _, none⟩⟩
  · exact .inl (readData_faults true window fault short)
  · have counted : readData true = (readV >>= take) := rfl
    rw [counted] at read
    exact .inr ⟨block, behind, counted_on.mp read, refused⟩
  · cases none

section Row

variable {row : FrameMeta} (found : frameByType code = some row)

include found

/-- Two types are registered for datagrams. -/
theorem datagram_code (datagram : row.name = .datagram) : code = 0x30 ∨ code = 0x31 := by
  obtain ⟨member, above, below⟩ := frameByType_range found
  have table : ∀ row ∈ frameTypes, row.name = .datagram → row.first = 0x30 ∧ row.last = 0x31 := by
    decide
  obtain ⟨first, last⟩ := table row member datagram
  omega

/-- The one type of a join takes as many bytes as the front of its records. -/
theorem join_code (joined : row.name = .pipeJoin) :
    varintShortest code = pipeJoinPrefix.length := by
  obtain ⟨member, above, below⟩ := frameByType_range found
  have table : ∀ row ∈ frameTypes, row.name = .pipeJoin →
      varintShortest row.first = pipeJoinPrefix.length ∧ row.first = row.last := by decide
  obtain ⟨width, single⟩ := table row member joined
  have same : code = row.first := by omega
  rw [same, width]

/-- A record that begins with parameters begins with the one type of their frame. -/
theorem block_code (block : row.name = .qxTransportParameters) :
    varintForm code (varintShortest code) = qxTpPrefix := by
  obtain ⟨member, above, below⟩ := frameByType_range found
  have table : ∀ row ∈ frameTypes, row.name = .qxTransportParameters → row.first = row.last ∧
      varintForm row.first (varintShortest row.first) = qxTpPrefix := by decide +kernel
  obtain ⟨single, opening⟩ := table row member block
  have same : code = row.first := by omega
  rw [same, opening]

/-- A type that is let through, other than that of padding, is the type of a frame with fields. -/
theorem row_fields (allowed : row.kind ≠ .prohibited) (nonzero : code ≠ 0) :
    row.name ∉ prohibitedNames ∧ row.name ≠ .padding := by
  obtain ⟨member, above, below⟩ := frameByType_range found
  have table : ∀ row ∈ frameTypes, (row.name ∈ prohibitedNames → row.kind = .prohibited) ∧
      (row.name = .padding → row.last = 0) := by decide
  obtain ⟨prohibited, last⟩ := table row member
  constructor
  · intro listed
    exact allowed (prohibited listed)
  · intro padding
    have zero := last padding
    omega

end Row

/-- A type is refused by the registry, or by a gate. -/
theorem checkType_faults {rest : Bytes} {fault : Failure}
    (failed : checkType code enabled = .error fault) :
    Explained (varintForm code (varintShortest code) ++ rest) fault := by
  -- The checks are taken apart in the order in which they are made.
  unfold checkType at failed
  cases found : frameByType code with
  | none =>
    rw [found] at failed
    cases failed
    exact .encoding (unknown_kept code)
  | some row =>
    simp only [found, bind_eq_error, raiseIf_eq_error, pure_ok] at failed
    rcases failed with ⟨-, rfl⟩ | ⟨_, -, gate | ⟨_, -, none⟩⟩
    · exact .encoding (prohibited_kept row.name)
    · simp only [checkGate, raiseIf_eq_error] at gate
      obtain ⟨-, rfl⟩ := gate
      split
      · -- Only the gate of datagrams has an error of its own.
        rename_i datagram
        exact .datagram (datagram_code found datagram) rfl
      · exact .encoding (gated_kept row.name)
    · cases none

/-- The fields of a join that passes the checks leave its whole frame between 26 and 62 bytes. -/
theorem readJoin_span {rest left : Bytes} {f : Frame} (read : readJoin.on rest = .ok (f, left)) :
    26 ≤ pipeJoinPrefix.length + (rest.length - left.length) ∧
      pipeJoinPrefix.length + (rest.length - left.length) ≤ 62 := by
  obtain ⟨join, -, decoded, starts⟩ := readJoin_on.mp read
  have bound := join_length decoded starts
  have four : pipeJoinPrefix.length = 4 := rfl
  omega

/-- A span is above a limit for a datagram only, for no join is too long. -/
theorem checkSpan_faults {row : FrameMeta} {rest left : Bytes} {f : Frame} {fault : Failure}
    (found : frameByType code = some row)
    (read : (decodeFields row.name code).on rest = .ok (f, left))
    (failed : checkSpan row (varintShortest code + rest.length - left.length) limit =
      .error fault) : Explained (varintForm code (varintShortest code) ++ rest) fault := by
  simp only [checkSpan, bind_eq_error, raiseIf_eq_error] at failed
  rcases failed with ⟨⟨joined, long⟩, -⟩ | ⟨_, -, ⟨datagram, -⟩, rfl⟩
  · -- The fields of a join leave the whole frame below the bound.
    rw [joined] at read
    have span := readJoin_span read
    have sixtyFour : Limits.maxJoinFrameBytes = 64 := rfl
    rw [join_code found joined] at long
    omega
  · exact .datagram (datagram_code found datagram) rfl

/-- Fields behind a type that is let through fail for a listed reason, or with their block. -/
theorem fields_explained {row : FrameMeta} {rest : Bytes} {fault : Failure}
    (checked : checkType code enabled = .ok row) (nonzero : code ≠ 0)
    (unread : (decodeFields row.name code).on rest = .error fault) :
    Explained (varintForm code (varintShortest code) ++ rest) fault := by
  obtain ⟨found, allowed, -⟩ := checkType_eq_ok.mp checked
  by_cases block : row.name = .qxTransportParameters
  · -- A block that is there as a whole is refused for what it is.
    rw [block] at unread
    rcases readTransportParameters_faults unread with listed | ⟨bytes, behind, counted, refused⟩
    · exact .field listed
    · obtain ⟨reason, rfl⟩ := decodeTps_faults bytes fault refused
      rw [block_code found block]
      exact .parameters rfl counted refused
  · obtain ⟨permitted, fields⟩ := row_fields found allowed nonzero
    exact .field (decodeFields_faults permitted fields block rest fault unread)

/-- Every failure of a frame is accounted for by the bytes it should begin. -/
theorem decodeFrame_faults (window : Bytes) (enabled : Gates) (limit : Option Nat) :
    Faults (decodeFrame window 0 window.length enabled limit) (Explained window) := by
  -- The cases follow the decoder: the type, its width, padding, the registry, the fields, the
  -- span.
  intro fault failed
  cases typed : decodeVarint window 0 FE with
  | error other =>
    rw [decodeFrame_untyped typed, Except.error.injEq] at failed
    rw [← failed, (decodeVarint_eq_error.mp typed).1]
    exact .field (fieldFault_listed (by simp [fieldReasons]))
  | ok answer =>
    obtain ⟨code, _, width⟩ := answer
    obtain ⟨legal, -, rest, rfl⟩ := decodeVarint_begin.mp typed
    by_cases minimal : width = varintShortest code
    · subst minimal
      by_cases zero : code = 0
      · -- Padding cannot fail.
        subst zero
        have form : varintForm 0 (varintShortest 0) = [0] := by decide
        rw [form, List.cons_append, List.nil_append, List.length_cons,
          decodeFrame_padding] at failed
        cases failed
      · rw [decodeFrame_typed legal zero] at failed
        simp only [bind_eq_error, pure_ok, Prod.exists] at failed
        rcases failed with refused | ⟨row, checked, unread | ⟨f, left, read, long | ⟨_, _, none⟩⟩⟩
        · exact checkType_faults refused
        · exact fields_explained checked zero unread
        · exact checkSpan_faults (checkType_eq_ok.mp checked).1 read long
        · cases none
    · rw [decodeFrame_wide legal minimal, Except.error.injEq] at failed
      rw [← failed]
      exact .wide legal minimal rfl

/-- A position that the loop over a payload reaches. -/
inductive Reaches (enabled : Gates) (limit : Option Nat) (payload : Bytes) : Nat → Prop where
  | start : Reaches enabled limit payload 0
  | next {pos after : Nat} {f : Frame} (here : Reaches enabled limit payload pos)
      (decoded : decodeFrame payload pos payload.length enabled limit = .ok (f, after)) :
      Reaches enabled limit payload after

/-- A failure of the frame at a position that the loop over a payload reaches. -/
def PayloadFault (enabled : Gates) (limit : Option Nat) (payload : Bytes) (fault : Failure) :
    Prop :=
  -- The position is one that the loop has reached, so the frames before it were decoded.
  ∃ pos, Reaches enabled limit payload pos ∧
    decodeFrame payload pos payload.length enabled limit = .error fault ∧
    Explained (payload.drop pos) fault

/-- A failure of a record or a message itself, or of a payload among its bytes. -/
def RecordFault (enabled : Gates) (buf : Bytes) (fault : Failure) : Prop :=
  -- A record has checks of its own, and its payload is some of the bytes.
  (∃ reason, ¬ Lost reason ∧ fault = .decodeError FE reason) ∨
  ∃ payload, payload <:+: buf ∧ PayloadFault enabled none payload fault

/-- A decode error of the protocol, and none that only a lost case could raise. -/
def Failure.IsProtocol (fault : Failure) : Prop :=
  -- The reason is only of interest for the code under which a lost one would be raised.
  ∃ code reason, fault = .decodeError code reason ∧
    (code = FE ∧ ¬ Lost reason ∨ code = PV ∨ code = TPE)

/-- What is explained is an error of the protocol. -/
theorem Explained.isProtocol {fault : Failure} (explained : Explained window fault) :
    fault.IsProtocol := by
  -- Each account names its code.
  cases explained with
  | encoding kept => exact ⟨_, _, rfl, .inl ⟨rfl, kept⟩⟩
  | wide => exact ⟨_, _, rfl, .inr (.inl rfl)⟩
  | datagram => exact ⟨_, _, rfl, .inr (.inl rfl)⟩
  | parameters => exact ⟨_, _, rfl, .inr (.inr rfl)⟩

/-- A record fails with an error of the protocol. -/
theorem RecordFault.isProtocol {buf : Bytes} {fault : Failure}
    (failed : RecordFault enabled buf fault) : fault.IsProtocol := by
  -- A failure of the payload is explained by one of its frames.
  rcases failed with ⟨reason, kept, rfl⟩ | ⟨payload, -, pos, -, -, explained⟩
  · exact ⟨_, _, rfl, .inl ⟨rfl, kept⟩⟩
  · exact explained.isProtocol

end Zmux
