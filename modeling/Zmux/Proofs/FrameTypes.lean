import Zmux.Proofs.FrameFields

/-! The type of a frame selects the fields that are read behind it. -/

namespace Zmux

open Wire

variable {name : FrameName} {code : Nat} {f : Frame} {window left : Bytes}

/-- What is read behind a type is a frame of that type, decoded where it is spelled. -/
theorem decodeFields_sound (read : (decodeFields name code).on window = .ok (f, left)) :
    f.name = some name ∧ f.Flagged code ∧ f.Decoded ∧ Starts varintFormat f.fields window left ∧
      (f.RunsToEnd → left = []) := by
  -- Each name selects one reader, whose answer is a frame of that name's shape.
  cases name with
  | stream =>
    obtain ⟨id, off, data, rfl, decoded, starts, ended⟩ := readStream_on.mp read
    exact ⟨rfl, ⟨rfl, rfl, rfl⟩, decoded, starts, ended⟩
  | resetStream =>
    obtain ⟨id, cause, finalSize, rfl, starts⟩ := readResetStream_on.mp read
    exact ⟨rfl, trivial, trivial, starts, False.elim⟩
  | resetStreamAt =>
    obtain ⟨id, cause, finalSize, reliableSize, rfl, bound, starts⟩ := readResetStreamAt_on.mp read
    exact ⟨rfl, trivial, bound, starts, False.elim⟩
  | stopSending =>
    obtain ⟨id, cause, rfl, starts⟩ := numbers2_on.mp read
    exact ⟨rfl, trivial, trivial, starts, False.elim⟩
  | maxData =>
    obtain ⟨max, rfl, starts⟩ := numbers1_on.mp read
    exact ⟨rfl, trivial, trivial, starts, False.elim⟩
  | maxStreamData =>
    obtain ⟨id, max, rfl, starts⟩ := numbers2_on.mp read
    exact ⟨rfl, trivial, trivial, starts, False.elim⟩
  | maxStreams =>
    obtain ⟨max, rfl, bound, starts⟩ := readMaxStreams_on.mp read
    exact ⟨rfl, rfl, bound, starts, False.elim⟩
  | dataBlocked =>
    obtain ⟨limit, rfl, starts⟩ := numbers1_on.mp read
    exact ⟨rfl, trivial, trivial, starts, False.elim⟩
  | streamDataBlocked =>
    obtain ⟨id, limit, rfl, starts⟩ := numbers2_on.mp read
    exact ⟨rfl, trivial, trivial, starts, False.elim⟩
  | streamsBlocked =>
    obtain ⟨limit, rfl, bound, starts⟩ := readStreamsBlocked_on.mp read
    exact ⟨rfl, rfl, bound, starts, False.elim⟩
  | connectionClose =>
    obtain ⟨cause, frameType, reason, rfl, decoded, starts⟩ := readConnectionClose_on.mp read
    exact ⟨rfl, rfl, decoded, starts, False.elim⟩
  | datagram =>
    obtain ⟨data, rfl, starts, ended⟩ := readDatagram_on.mp read
    exact ⟨rfl, rfl, trivial, starts, ended⟩
  | qxTransportParameters =>
    obtain ⟨params, rfl, decoded, starts⟩ := readTransportParameters_on.mp read
    exact ⟨rfl, trivial, decoded, starts, False.elim⟩
  | qxPing =>
    obtain ⟨seq, rfl, starts⟩ := numbers1_on.mp read
    exact ⟨rfl, rfl, trivial, starts, False.elim⟩
  | goaway =>
    obtain ⟨maxBidi, maxUni, cause, rfl, bounds, starts⟩ := readGoaway_on.mp read
    exact ⟨rfl, trivial, bounds, starts, False.elim⟩
  | priorityUpdate =>
    obtain ⟨id, seq, urgency, incremental, rfl, bound, starts⟩ := readPriorityUpdate_on.mp read
    exact ⟨rfl, trivial, bound, starts, False.elim⟩
  | pipeJoin =>
    obtain ⟨join, rfl, decoded, starts⟩ := readJoin_on.mp read
    exact ⟨rfl, trivial, decoded, starts, False.elim⟩
  | pipeAck =>
    obtain ⟨entries, rfl, decoded, starts⟩ := readAck_on.mp read
    exact ⟨rfl, trivial, decoded, starts, False.elim⟩
  | pipeLane =>
    obtain ⟨key, pipe, lane, rfl, long, starts⟩ := readLane_on.mp read
    exact ⟨rfl, trivial, long, starts, False.elim⟩
  -- Nothing is read, so the window is what is left.
  | pipePing =>
    cases read
    exact ⟨rfl, trivial, trivial, starts_done_iff.mpr rfl, False.elim⟩
  | pipeAbandon =>
    obtain ⟨pipe, cause, rfl, starts⟩ := numbers2_on.mp read
    exact ⟨rfl, trivial, trivial, starts, False.elim⟩
  | pipeStatus =>
    obtain ⟨pipe, seq, status, priority, rfl, starts⟩ := readStatus_on.mp read
    exact ⟨rfl, trivial, trivial, starts, False.elim⟩
  -- The prohibited names have no reader that answers.
  | _ => cases read

/-- A frame of a type is read behind the type wherever its fields are spelled. -/
theorem decodeFields_complete (named : f.name = some name) (flagged : f.Flagged code)
    (decoded : f.Decoded) (starts : Starts varintFormat f.fields window left)
    (ended : f.RunsToEnd → left = []) : (decodeFields name code).on window = .ok (f, left) := by
  -- The shape of the frame selects the reader, and the flags agree with what the type says.
  cases f with
  | raw | repeated | padding => cases named
  | stream id off data fin hasOff hasLen =>
    cases named
    obtain ⟨rfl, rfl, rfl⟩ := flagged
    -- Only a stream frame with every default filled in is decoded.
    cases off <;> cases data <;> first | exact decoded.elim | skip
    exact readStream_on.mpr ⟨_, _, _, rfl, decoded, starts, ended⟩
  | resetStream =>
    cases named
    exact readResetStream_on.mpr ⟨_, _, _, rfl, starts⟩
  | resetStreamAt =>
    cases named
    exact readResetStreamAt_on.mpr ⟨_, _, _, _, rfl, decoded, starts⟩
  | stopSending =>
    cases named
    exact numbers2_on.mpr ⟨_, _, rfl, starts⟩
  | maxData =>
    cases named
    exact numbers1_on.mpr ⟨_, rfl, starts⟩
  | maxStreamData =>
    cases named
    exact numbers2_on.mpr ⟨_, _, rfl, starts⟩
  | maxStreams =>
    cases named
    cases flagged
    exact readMaxStreams_on.mpr ⟨_, rfl, decoded, starts⟩
  | dataBlocked =>
    cases named
    exact numbers1_on.mpr ⟨_, rfl, starts⟩
  | streamDataBlocked =>
    cases named
    exact numbers2_on.mpr ⟨_, _, rfl, starts⟩
  | streamsBlocked =>
    cases named
    cases flagged
    exact readStreamsBlocked_on.mpr ⟨_, rfl, decoded, starts⟩
  | connectionClose app cause frameType reason =>
    cases named
    cases flagged
    cases reason with
    | none => exact decoded.elim
    | some reason => exact readConnectionClose_on.mpr ⟨_, _, _, rfl, decoded, starts⟩
  | datagram data hasLen =>
    cases named
    cases flagged
    cases data with
    | none => exact decoded.elim
    | some data => exact readDatagram_on.mpr ⟨_, rfl, starts, ended⟩
  | qxTransportParameters block =>
    cases named
    cases block with
    | raw => exact decoded.elim
    | params params => exact readTransportParameters_on.mpr ⟨_, rfl, decoded, starts⟩
  | qxPing =>
    cases named
    cases flagged
    exact numbers1_on.mpr ⟨_, rfl, starts⟩
  | goaway =>
    cases named
    exact readGoaway_on.mpr ⟨_, _, _, rfl, decoded, starts⟩
  | priorityUpdate id seq urgency incremental =>
    cases named
    cases incremental with
    | none => exact decoded.elim
    | some incremental => exact readPriorityUpdate_on.mpr ⟨_, _, _, _, rfl, decoded, starts⟩
  | pipeJoin =>
    cases named
    exact readJoin_on.mpr ⟨_, rfl, decoded, starts⟩
  | pipeAck =>
    cases named
    exact readAck_on.mpr ⟨_, rfl, decoded, starts⟩
  | pipeLane =>
    cases named
    exact readLane_on.mpr ⟨_, _, _, rfl, decoded, starts⟩
  | pipePing =>
    cases named
    cases starts_done_iff.mp starts
    rfl
  | pipeAbandon =>
    cases named
    exact numbers2_on.mpr ⟨_, _, rfl, starts⟩
  | pipeStatus pipe seq status priority =>
    cases named
    -- Only a named status with a priority is decoded.
    cases status <;> cases priority <;> first | exact decoded.elim | skip
    exact readStatus_on.mpr ⟨_, _, _, _, rfl, starts⟩

/-- Every row of the registry is found by its name and by the types of its range. -/
theorem frame_row {row : FrameMeta} (member : row ∈ frameTypes) :
    frameByName row.name = .ok row ∧ frameByType row.first = some row := by
  -- Names and ranges do not meet, which the table shows by inspection.
  have all : ∀ row ∈ frameTypes,
      frameTypes.find? (fun other => other.name = row.name) = some row ∧
      frameTypes.find? (fun other => other.first ≤ row.first ∧ row.first ≤ other.last) =
        some row := by decide
  obtain ⟨byName, byType⟩ := all row member
  exact ⟨by rw [frameByName, byName], byType⟩

/-- A type found is in the range of its row. -/
theorem frameByType_range {row : FrameMeta} (found : frameByType code = some row) :
    row ∈ frameTypes ∧ row.first ≤ code ∧ code ≤ row.last := by
  -- The lookup tests the range and nothing else.
  refine ⟨List.mem_of_find?_eq_some found, ?_⟩
  simpa using List.find?_some found

/-- The names that stand for several types, told apart by flags of the frame. -/
def flaggedNames : List FrameName :=
  [.ack, .stream, .maxStreams, .streamsBlocked, .connectionClose, .datagram, .qxPing]

/-- The other names have one type each. -/
theorem single_type {row : FrameMeta} (member : row ∈ frameTypes)
    (single : row.name ∉ flaggedNames) : row.last = row.first := by
  -- The ranges of more than one type are those of the names listed above.
  have all : ∀ row ∈ frameTypes, row.name ∉ flaggedNames → row.last = row.first := by decide
  exact all row member single

/-- The row that is found by a name is one of the registry with that name. -/
theorem frameByName_mem {row : FrameMeta} (listed : frameByName name = .ok row) :
    row ∈ frameTypes ∧ row.name = name := by
  -- The lookup tests the name and nothing else.
  unfold frameByName at listed
  split at listed
  · rename_i first same
    cases listed
    exact ⟨List.mem_of_find?_eq_some same, by simpa using List.find?_some same⟩
  · cases listed

/-- The types of a name are those in the range of its row. -/
theorem type_range {row : FrameMeta} (listed : frameByName name = .ok row) :
    (∃ found, frameByType code = some found ∧ found.name = name) ↔
      row.first ≤ code ∧ code ≤ row.last := by
  -- No two rows of the table hold the same type.
  have apart : ∀ row ∈ frameTypes, ∀ other ∈ frameTypes,
      row.first ≤ other.last → other.first ≤ row.last → other = row := by decide +kernel
  have member := frameByName_mem listed
  constructor
  · intro typed
    obtain ⟨found, typed, rfl⟩ := typed
    obtain ⟨inside, range⟩ := frameByType_range typed
    rw [(frame_row inside).1] at listed
    cases listed
    exact range
  · intro range
    -- The first row that holds the type meets the row of the name, so they are one.
    cases typed : frameByType code with
    | none =>
      have outside := List.find?_eq_none.mp typed row member.1
      simp [range] at outside
    | some found =>
      obtain ⟨inside, between⟩ := frameByType_range typed
      have same := apart row member.1 found inside (by omega) (by omega)
      exact ⟨found, rfl, by rw [same, member.2]⟩

/-- A name with one type has the first type of its row. -/
theorem firstType_iff (single : name ∉ flaggedNames) :
    firstType name = .ok code ↔ ∃ found, frameByType code = some found ∧ found.name = name := by
  -- Every name has a row, whose range is one number here.
  have listed : ∃ row, frameByName name = .ok row := by cases name <;> exact ⟨_, rfl⟩
  obtain ⟨row, listed⟩ := listed
  have first : firstType name = .ok row.first := by rw [firstType, listed, map_ok]
  obtain ⟨member, rfl⟩ := frameByName_mem listed
  have alone := single_type member single
  rw [first, type_range listed, Except.ok.injEq]
  omega

/-- The type of a stream frame is the base type with the bits of its flags. -/
theorem streamType_iff {fin hasOff hasLen : Bool} :
    streamBase ||| flag offBit hasOff ||| flag lenBit hasLen ||| flag finBit fin = code ↔
      (8 ≤ code ∧ code ≤ 15) ∧ fin = hasBit code finBit ∧ hasOff = hasBit code offBit ∧
      hasLen = hasBit code lenBit := by
  -- Eight types and three flags are inspected in each direction.
  constructor
  · intro same
    subst same
    cases fin <;> cases hasOff <;> cases hasLen <;> decide
  · intro flags
    obtain ⟨range, rfl, rfl, rfl⟩ := flags
    have all : ∀ code < 16, 8 ≤ code → streamBase ||| flag offBit (hasBit code offBit)
        ||| flag lenBit (hasBit code lenBit) ||| flag finBit (hasBit code finBit) = code := by decide
    exact all code (by omega) range.1

/-- The type of a frame is one that its name is registered for and that has its flags. -/
theorem typeCode_iff (named : f.name = some name) (decoded : f.Decoded) :
    typeCode f = .ok code ↔
      f.Flagged code ∧ ∃ row, frameByType code = some row ∧ row.name = name := by
  -- For a name with several types the flags choose one in the range; for the others there is one.
  cases f with
  | raw | repeated | padding => cases named
  | stream id off data fin hasOff hasLen =>
    cases named
    rw [type_range rfl]
    -- A decoded stream frame leaves none of its flags to a default.
    cases off <;> cases data <;> cases fin <;> cases hasOff <;> cases hasLen <;>
      first | exact decoded.elim | skip
    simp only [typeCode, Option.getD_some, Except.ok.injEq, streamType_iff, Frame.Flagged,
      Option.some.injEq]
    exact and_comm
  | maxStreams bidi =>
    cases named
    rw [type_range rfl]
    cases bidi <;> simp [typeCode, Frame.Flagged] <;> omega
  | streamsBlocked bidi =>
    cases named
    rw [type_range rfl]
    cases bidi <;> simp [typeCode, Frame.Flagged] <;> omega
  | connectionClose app cause frameType reason =>
    cases named
    rw [type_range rfl]
    cases app with
    | none => exact decoded.elim
    | some app => cases app <;> simp [typeCode, Frame.Flagged] <;> omega
  | datagram data hasLen =>
    cases named
    rw [type_range rfl]
    cases hasLen with
    | none => cases data <;> exact decoded.elim
    | some hasLen => cases hasLen <;> simp [typeCode, Frame.Flagged] <;> omega
  | qxPing response seq =>
    cases named
    rw [type_range rfl]
    cases response with
    | none => exact decoded.elim
    | some response => cases response <;> simp [typeCode, Frame.Flagged] <;> omega
  | _ =>
    cases named
    rw [← firstType_iff (by decide)]
    exact ⟨fun typed => ⟨trivial, typed⟩, fun typed => typed.2⟩

end Zmux
