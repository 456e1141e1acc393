import Zmux.Codec.Annotate
import Zmux.Proofs.RoundTrip

/-! The tables of fields show the bytes that the encoder writes. -/

namespace Zmux

open Wire

/-- The bytes that the rows of a table show, from the first to the last. -/
def columns (rows : List FieldRow) : Bytes := rows.flatMap FieldRow.bytes

/-- A table without rows shows no bytes. -/
@[simp] theorem columns_nil : columns [] = [] := rfl

/-- A table shows the bytes of its first row, and those of the others. -/
@[simp] theorem columns_cons (row : FieldRow) (rows : List FieldRow) :
    columns (row :: rows) = row.bytes ++ columns rows := rfl

/-- Two tables show their bytes one after the other. -/
@[simp] theorem columns_append (rows more : List FieldRow) :
    columns (rows ++ more) = columns rows ++ columns more := List.flatMap_append

/-- A row of bytes shows these bytes. -/
@[simp] theorem bf_bytes (name : String) (b : Bytes) (note : Option String) :
    (bf name b note).bytes = b := rfl

/-- Rows that can be made and show some bytes. -/
def Shows (rows : Except Failure (List FieldRow)) (bytes : Bytes) : Prop :=
  rows.map columns = .ok bytes

section Rows

variable {rows : Except Failure (List FieldRow)} {bytes : Bytes}

/-- Bytes are shown by the rows of a table that exists. -/
theorem shows_iff : Shows rows bytes ↔ ∃ list, rows = .ok list ∧ columns list = bytes := by
  cases rows <;> simp [Shows]

/-- The row of an integer shows its encoding. -/
theorem vf_ok {name : String} {value : Nat} (encoded : v value = .ok bytes) :
    vf name value = .ok ⟨name, bytes, toString value⟩ := by
  rw [vf, encoded]
  rfl

/-- The rows of integers show the integers one after the other. -/
theorem vfs_shows {fields : List (String × Nat)} (encoded : vs (fields.map Prod.snd) = .ok bytes) :
    Shows (vfs fields) bytes := by
  induction fields generalizing bytes with
  | nil =>
    cases encoded
    rfl
  | cons field fields ih =>
    simp only [List.map_cons, vs, bind_eq_ok, pure_ok, Except.ok.injEq] at encoded
    obtain ⟨head, first, tail, others, rfl⟩ := encoded
    obtain ⟨list, made, shown⟩ := shows_iff.mp (ih others)
    refine shows_iff.mpr ⟨⟨field.1, head, toString field.2⟩ :: list, ?_, ?_⟩
    · rw [vfs, vf_ok first, ok_bind, made]
      rfl
    · rw [columns_cons, shown]

/-- A row that may be left out shows its field where it is sent. -/
theorem rowWhen_shows {sent : Bool} {name : String} {value : Nat}
    (encoded : encodeWhen sent (v value) = .ok bytes) :
    Shows (rowWhen sent (vf name value)) bytes := by
  cases sent with
  | false =>
    cases encoded
    rfl
  | true =>
    have written : v value = .ok bytes := encoded
    rw [rowWhen, if_pos rfl, vf_ok written]
    simp [Shows]

/-- Data is shown behind its length, or alone where the length is left out. -/
theorem data_shows {hasLen : Bool} {data : Bytes} {name : String}
    (encoded : encodeData hasLen data = .ok bytes) :
    ∃ length, rowWhen hasLen (vf "Length" data.length) = .ok length ∧
      columns (length ++ [bf name data]) = bytes := by
  cases hasLen with
  | false =>
    cases encoded
    exact ⟨[], rfl, by simp⟩
  | true =>
    simp only [encodeData, if_true, counted, bind_eq_ok, pure_ok, Except.ok.injEq] at encoded
    obtain ⟨count, written, rfl⟩ := encoded
    rw [rowWhen, if_pos rfl, vf_ok written]
    exact ⟨_, rfl, by simp⟩

end Rows

section Parameters

/-- The rows of a parameter show its number, its length and its value. -/
theorem paramFields_shows {p : Param} {bytes : Bytes} (encoded : encodeTp p = .ok bytes) :
    Shows (paramFields p) bytes := by
  simp only [encodeTp, bind_eq_ok, pure_ok, Except.ok.injEq] at encoded
  obtain ⟨num, numbered, val, valued, head, first, count, second, rfl⟩ := encoded
  rw [shows_iff, paramFields, numbered, ok_bind, valued, ok_bind, first, ok_bind, second, ok_bind]
  refine ⟨_, rfl, ?_⟩
  -- An empty value has no row, and no bytes to show.
  by_cases empty : val = [] <;> simp [empty]

/-- The rows of parameters show the bytes that they are encoded to. -/
theorem paramsFields_shows {params : List Param} {bytes : Bytes}
    (encoded : encodeTps params = .ok bytes) : Shows (paramsFields params) bytes := by
  induction params generalizing bytes with
  | nil =>
    cases encoded
    rfl
  | cons p params ih =>
    simp only [encodeTps, bind_eq_ok, pure_ok, Except.ok.injEq] at encoded
    obtain ⟨out, first, rest, others, rfl⟩ := encoded
    obtain ⟨head, made, shown⟩ := shows_iff.mp (paramFields_shows first)
    obtain ⟨tail, more, last⟩ := shows_iff.mp (ih others)
    rw [shows_iff, paramsFields, made, ok_bind, more, ok_bind]
    exact ⟨_, rfl, by rw [columns_append, shown, last]⟩

end Parameters

section Joins

/-- A small number is encoded as the byte that it is. -/
theorem v_small {value : Nat} (small : value < 1 <<< 6) : v value = oneByte value := by
  have fits : value ≤ maxVarint := by
    rw [maxVarint]
    omega
  have width : varintShortest value = 1 := by rw [varintShortest, if_pos small]
  have digit : 64 * Nat.log2 1 + value / 256 ^ (1 - 1) = value := by simp [Nat.log2_def]
  rw [v, encodeVarint_shortest fits, width, oneByte, if_pos (by omega), varintForm, digit]
  rfl

/-- What a join must be like to be shown: its direction named, and no bit but the known ones. -/
structure Join.Supported (join : Join) : Prop where
  locator : join.locator.length ≤ 16
  direction : ∃ direction, join.direction = .named direction
  reservedFlags : join.reservedFlags.getD 0 = 0

/-- The rows of a join show the bytes that it is encoded to. -/
theorem joinFields_shows {join : Join} {bytes : Bytes} (supported : join.Supported)
    (encoded : encodeJoinBody join = .ok bytes) : Shows (joinFields join) bytes := by
  obtain ⟨direction, named⟩ := supported.direction
  have short : join.locator.length < 1 <<< 6 := by
    have bound := supported.locator
    omega
  have code : join.direction.namedCode = join.direction.code := by rw [named]; rfl
  simp only [encodeJoinBody, supported.reservedFlags, Nat.or_zero, bind_eq_ok, pure_ok,
    Except.ok.injEq] at encoded
  obtain ⟨bits, coded, count, counted, pipe, second, flags, third, fate, fourth, priority, fifth,
    rfl⟩ := encoded
  rw [← v_small short] at counted
  have marked : oneByte (bits ||| flag 0x04 (join.carrierBound.getD false)
      ||| flag 0x08 (join.standby.getD false)) = .ok flags := third
  have last : v (join.priority.getD 0) = .ok priority := fifth
  rw [shows_iff, joinFields, code, coded, ok_bind, vf_ok counted, ok_bind, vf_ok second, ok_bind,
    marked, ok_bind, vf_ok fourth, ok_bind, vf_ok last, ok_bind]
  exact ⟨_, rfl, by simp⟩

end Joins

/-- The frames whose fields are shown. -/
def Frame.Supported : Frame → Prop
  | .raw _ | .repeated .. | .qxTransportParameters (.raw _) => False
  | .pipeJoin join => join.Supported
  | _ => True

section Frames

variable (reasonText : Bytes → String) {f : Frame} {fs : List Frame} {code : Nat} {bytes : Bytes}

/-- The rows behind the type of a frame show its fields. -/
theorem typedFields_shows (supported : f.Supported) (encoded : encodeFields f code = .ok bytes) :
    Shows (typedFields reasonText f code) bytes := by
  cases f with
  | raw | repeated => exact supported.elim
  | padding => cases encoded
  | stream id off data fin hasOff hasLen =>
    simp only [encodeFields, bind_eq_ok, pure_ok, Except.ok.injEq] at encoded
    obtain ⟨head, first, offset, second, tail, third, rfl⟩ := encoded
    obtain ⟨list, made, shown⟩ := shows_iff.mp (@rowWhen_shows _ _ "Offset" _ second)
    obtain ⟨length, counted, ended⟩ := @data_shows _ _ _ "Stream Data" third
    rw [shows_iff]
    simp only [typedFields, vf_ok first, made, counted, ok_bind, pure_ok]
    refine ⟨_, rfl, ?_⟩
    rw [List.append_assoc, columns_append, ended]
    simp [shown]
  | resetStream | resetStreamAt | stopSending | maxData | maxStreamData | maxStreams | dataBlocked
  | streamDataBlocked | streamsBlocked | qxPing | goaway => exact vfs_shows encoded
  | connectionClose app code frameType reason =>
    simp only [encodeFields, counted, bind_eq_ok, pure_ok, Except.ok.injEq] at encoded
    obtain ⟨head, first, cause, second, tail, ⟨count, third, rfl⟩, rfl⟩ := encoded
    obtain ⟨list, made, shown⟩ := shows_iff.mp (@rowWhen_shows _ _ "Frame Type" _ second)
    rw [shows_iff]
    simp only [typedFields, vf_ok first, made, vf_ok third, ok_bind, pure_ok]
    exact ⟨_, rfl, by simp [shown]⟩
  | datagram data hasLen =>
    obtain ⟨length, counted, ended⟩ := @data_shows _ _ _ "Datagram Data" encoded
    rw [shows_iff]
    simp only [typedFields, counted, ok_bind, pure_ok]
    exact ⟨_, rfl, ended⟩
  | qxTransportParameters block =>
    cases block with
    | raw => exact supported.elim
    | params params =>
      simp only [encodeFields, TpBlock.encode, counted, bind_eq_ok, pure_ok, Except.ok.injEq]
        at encoded
      obtain ⟨body, inside, count, first, rfl⟩ := encoded
      obtain ⟨list, made, shown⟩ := shows_iff.mp (paramsFields_shows inside)
      rw [shows_iff]
      simp only [typedFields, inside, vf_ok first, made, ok_bind, pure_ok]
      exact ⟨_, rfl, by simp [shown]⟩
  | priorityUpdate id seq urgency incremental =>
    simp only [encodeFields, bind_eq_ok, pure_ok, Except.ok.injEq] at encoded
    obtain ⟨head, first, byte, second, rfl⟩ := encoded
    obtain ⟨list, made, shown⟩ := shows_iff.mp
      (@vfs_shows _ [("Stream ID", id), ("Sequence Number", seq)] first)
    rw [shows_iff]
    simp only [typedFields, second, made, ok_bind, pure_ok]
    exact ⟨_, rfl, by simp [shown]⟩
  | pipeJoin join => exact joinFields_shows supported encoded
  | pipeAck entries =>
    apply vfs_shows
    rw [List.map_cons, List.map_flatMap]
    exact encoded
  | pipeLane key pipe lane =>
    simp only [encodeFields, laneKey, bind_eq_ok, pure_ok, Except.ok.injEq] at encoded
    obtain ⟨_, ⟨-, -, rfl⟩, tail, second, rfl⟩ := encoded
    obtain ⟨list, made, shown⟩ := shows_iff.mp
      (@vfs_shows _ [("Pipe ID", pipe), ("Lane", lane)] second)
    rw [shows_iff]
    simp only [typedFields, made, ok_bind, pure_ok]
    exact ⟨_, rfl, by simp [shown]⟩
  | pipePing =>
    cases encoded
    rfl
  | pipeAbandon pipe number =>
    simp only [encodeFields, vs, bind_eq_ok, pure_ok, Except.ok.injEq] at encoded
    obtain ⟨head, first, _, ⟨tail, second, _, rfl, rfl⟩, rfl⟩ := encoded
    rw [shows_iff]
    simp only [typedFields, vf_ok first, second, ok_bind, pure_ok]
    exact ⟨_, rfl, by simp⟩
  | pipeStatus pipe seq status priority =>
    simp only [encodeFields, vs, bind_eq_ok, pure_ok, Except.ok.injEq] at encoded
    obtain ⟨num, named, head, first, _, ⟨next, second, _, ⟨stated, third, _, ⟨last, fourth, _, rfl,
      rfl⟩, rfl⟩, rfl⟩, rfl⟩ := encoded
    have ranked : v (priority.getD 0) = .ok last := fourth
    rw [shows_iff]
    simp only [typedFields, vfs, named, vf_ok first, vf_ok second, third, vf_ok ranked, ok_bind,
      pure_ok]
    exact ⟨_, rfl, by simp⟩

/-- The rows of a frame show its encoding. -/
theorem frameFields_shows (supported : f.Supported) (encoded : encodeFrame f = .ok bytes) :
    Shows (frameFields reasonText f) bytes := by
  cases f with
  | raw | repeated => exact supported.elim
  | padding count =>
    cases encoded
    simp [Shows, frameFields]
  -- Every other frame is its type with its fields behind it, here as there.
  | _ =>
    simp only [encodeFrame, bind_eq_ok, pure_ok, Except.ok.injEq] at encoded
    obtain ⟨code, coded, head, first, fields, second, rfl⟩ := encoded
    have typed : v code = .ok head := first
    obtain ⟨rows, made, shown⟩ := shows_iff.mp (typedFields_shows reasonText supported second)
    rw [shows_iff]
    simp only [frameFields, coded, typed, made, ok_bind, pure_ok]
    exact ⟨_, rfl, by rw [columns_cons, shown]⟩

/-- The rows of several frames show their encodings. -/
theorem framesFields_shows (supported : ∀ f ∈ fs, f.Supported)
    (encoded : encodeFrames fs = .ok bytes) :
    Shows (framesFields reasonText fs) bytes := by
  induction fs generalizing bytes with
  | nil =>
    cases encoded
    rfl
  | cons f fs ih =>
    rw [List.forall_mem_cons] at supported
    simp only [encodeFrames, bind_eq_ok, pure_ok, Except.ok.injEq] at encoded
    obtain ⟨head, first, tail, others, rfl⟩ := encoded
    obtain ⟨rows, made, shown⟩ := shows_iff.mp (frameFields_shows reasonText supported.1 first)
    obtain ⟨more, next, last⟩ := shows_iff.mp (ih supported.2 others)
    rw [shows_iff, framesFields, made, ok_bind, next, ok_bind]
    exact ⟨_, rfl, by rw [columns_append, shown, last]⟩

/-- A well-formed frame is among those whose fields are shown, and has an encoding. -/
theorem Frame.WellFormed.shown (formed : f.WellFormed) :
    f.Supported ∧ ∃ bytes, encodeFrame f = .ok bytes := by
  constructor
  · cases f with
    | raw | repeated => exact formed.elim
    | qxTransportParameters block =>
      cases block with
      | raw => exact formed.elim
      | params => trivial
    | pipeJoin join => exact ⟨formed.locator.2, formed.direction, formed.reservedFlags⟩
    | _ => trivial
  · by_cases none : f.explicit = .padding (some 0)
    -- Padding of no bytes is encoded too, though no decoder gives it.
    · rw [← encodeFrame_explicit formed, none]
      exact ⟨[], rfl⟩
    · obtain ⟨decoded, fits⟩ := formed.decoded none
      rw [← encodeFrame_explicit formed]
      exact ⟨_, encodeFrame_eq_ok decoded fits⟩

end Frames

/--
The table of a record shows the bytes of the record, and that of a frame those of the frame.

Every well-formed frame is shown.
-/
theorem recordFields_columns (reasonText : Bytes → String) :
    (∀ fs : List Frame, (∀ f ∈ fs, f.Supported) →
      (recordFields reasonText fs).map columns = encodeRecord fs) ∧
    (∀ (f : Frame) (bytes : Bytes), f.Supported → encodeFrame f = .ok bytes →
      (frameFields reasonText f).map columns = .ok bytes) ∧
    ∀ f : Frame, f.WellFormed → f.Supported ∧ (∃ bytes, encodeFrame f = .ok bytes) ∧
      (frameFields reasonText f).map columns = encodeFrame f := by
  refine ⟨?_, fun f bytes => frameFields_shows reasonText, ?_⟩
  · intro fs supported
    rw [recordFields, encodeRecord]
    -- Whatever stops the encoder stops the table, for it begins with the encoding.
    cases encoded : encodeFrames fs with
    | error fault => rfl
    | ok body =>
      obtain ⟨rows, made, shown⟩ := shows_iff.mp (framesFields_shows reasonText supported encoded)
      rw [ok_bind, ok_bind, v, made]
      cases sized : encodeVarint body.length with
      | error fault => rfl
      | ok size =>
        rw [ok_bind, ok_bind, ok_bind, pure_ok, map_ok, columns_cons, shown, pure_ok]
  · intro f formed
    obtain ⟨supported, bytes, encoded⟩ := formed.shown
    refine ⟨supported, ⟨bytes, encoded⟩, ?_⟩
    rw [encoded]
    exact frameFields_shows reasonText supported encoded

/-- A record of a join, a block, a stream with an offset and an acknowledgement. -/
theorem recordFields_columns_join :
    let fs : List Frame := [.pipeJoin ⟨[76, 79], 2, .named .bidi, some true, none, none, 7, none,
        List.replicate 16 1⟩, .qxTransportParameters (.params [⟨.name .initialMaxData,
          .value (.varint 5)⟩, ⟨.num 120, .raw [0x9A]⟩]), .stream 4 (some 70) (some [1, 2]) none none
        none, .pipeAck [⟨0, 0, 300, 0⟩]]
    (recordFields bytesRepr fs).map columns = encodeRecord fs := by
  refine (recordFields_columns bytesRepr).1 _ ?_
  intro f member
  simp only [List.mem_cons, List.not_mem_nil, or_false] at member
  rcases member with rfl | rfl | rfl | rfl
  · exact ⟨by decide, ⟨.bidi, rfl⟩, rfl⟩
  · trivial
  · trivial
  · trivial

end Zmux
