import Zmux.Codec.FrameDecoder

/-! Records, messages, the stream of a pipe, and the check of its first bytes. -/

namespace Zmux

open Wire

/-- A record is the length of its frames, then the frames. -/
def encodeRecord (frames : List Frame) (sizeWidth : Option Nat := none) : Except Failure Bytes := do
  let body ← encodeFrames frames
  -- Any width that holds the size may be forced, as for every integer.
  let size ← encodeVarint body.length sizeWidth
  return size ++ body

/-- Byte strings one after the other, as far as all of them exist. -/
def joinBytes : List (Except Failure Bytes) → Except Failure Bytes
  | [] => .ok []
  | first :: others => do
    let head ← first
    let tail ← joinBytes others
    return head ++ tail

/-- The bytes of records, one after the other. -/
def recordBytes (records : List (List Frame)) : Except Failure Bytes :=
  joinBytes (records.map fun frames => encodeRecord frames)

/-- The record at a position and the position behind it, or no record if it is not complete. -/
def decodeRecord (buf : Bytes) (pos : Nat) (maxRecordSize : Nat := Limits.defaultMaxRecordSize)
    (enabled : Gates := none) : Except Failure (Option (List Frame) × Nat) :=
  if pos ≥ buf.length then .ok (none, pos)
  else do
    let first ← item buf pos
    let width := 1 <<< (first.toNat >>> 6)
    -- The size is not complete yet, so nothing is refused.
    if pos + width > buf.length then return (none, pos)
    else do
      let (size, bodyStart, _) ← decodeVarint buf pos FE
      -- The size is checked before the body has arrived.
      raiseIf (size = 0) (.decodeError FE "empty record")
      raiseIf (size > maxRecordSize) (.decodeError FE "record larger than max_record_size")
      if bodyStart + size > buf.length then return (none, pos)
      else do
        -- The body is decoded on its own, so no frame reads past its record.
        let frames ← decodeFrames (slice buf bodyStart (bodyStart + size)) enabled
        return (some frames, bodyStart + size)

/-- The frames of one message on a message-framed carrier, whose length is the size. -/
def decodeMessage (msg : Bytes) (maxRecordSize : Nat := Limits.zmuxMaxRecordSize)
    (enabled : Gates := none) : Except Failure (List Frame) :=
  -- An empty message carries no frames and is not refused.
  if msg.length = 0 then .ok []
  else do
    raiseIf (msg.length > maxRecordSize)
      (.decodeError FE "message longer than max_record_size")
    decodeFrames msg enabled

/-- The bytes a message counts for in the positions of a pipe, which are those of its record. -/
def messagePosition (msg : Bytes) : Except Failure Nat := do
  -- The size is counted in its shortest form, though it is not sent on such a carrier.
  let size ← encodeVarint msg.length
  return msg.length + size.length

/-- A complete record takes at least one byte, and only bytes of the buffer. -/
theorem decodeRecord_forward {buf : Bytes} {pos next maxRecordSize : Nat} {enabled : Gates}
    {frames : List Frame}
    (decoded : decodeRecord buf pos maxRecordSize enabled = .ok (some frames, next)) :
    pos < next ∧ next ≤ buf.length := by
  -- Only the last branch gives frames, with a position behind a whole body.
  unfold decodeRecord at decoded
  split at decoded
  · cases decoded
  · simp only [bind_eq_ok] at decoded
    obtain ⟨first, -, decoded⟩ := decoded
    split at decoded
    · cases decoded
    · simp only [bind_eq_ok] at decoded
      obtain ⟨⟨size, start, width⟩, sized, -, -, -, -, decoded⟩ := decoded
      have forward := (decodeVarint_forward sized).1
      split at decoded
      · cases decoded
      · simp only [bind_eq_ok, pure_ok, Except.ok.injEq, Prod.mk.injEq] at decoded
        obtain ⟨frames, -, -, rfl⟩ := decoded
        simp only at *
        omega

/-- The loop of `decodeStream` from a position on. -/
def decodeStreamFrom (buf : Bytes) (pos maxRecordSize : Nat) (enabled : Gates)
    (requireComplete : Bool) : Except Failure (List (List Frame)) :=
  if pos < buf.length then
    match found : decodeRecord buf pos maxRecordSize enabled with
    | .error fault => .error fault
    | .ok (none, _) =>
      -- A record that is not complete is an error only at the end of the pipe.
      if requireComplete then .error (.decodeError FE "truncated record at end of pipe")
      else .ok []
    | .ok (some frames, npos) => do
      have _forward := decodeRecord_forward found
      let records ← decodeStreamFrom buf npos maxRecordSize enabled requireComplete
      return frames :: records
  else .ok []
termination_by buf.length - pos

/-- The records of a pipe, which must end with a whole record unless it may go on. -/
def decodeStream (buf : Bytes) (maxRecordSize : Nat := Limits.defaultMaxRecordSize)
    (enabled : Gates := none) (requireComplete : Bool := true) :
    Except Failure (List (List Frame)) :=
  decodeStreamFrom buf 0 maxRecordSize enabled requireComplete

/-- The encoded type that a first record of a kind begins with. -/
def typePrefix (name : FrameName) : Bytes :=
  match firstType name >>= fun first => encodeVarint first with
  | .ok bytes => bytes
  | .error _ => []

/-- The type of a QX_TRANSPORT_PARAMETERS frame as it is sent. -/
def qxTpPrefix : Bytes := typePrefix .qxTransportParameters

/-- The type of a PIPE_JOIN frame as it is sent. -/
def pipeJoinPrefix : Bytes := typePrefix .pipeJoin

/-- The type of a PIPE_LANE frame as it is sent. -/
def pipeLanePrefix : Bytes := typePrefix .pipeLane

/-- A type and a length of zero. -/
def minTpRecord : Nat := qxTpPrefix.length + 1

/-- A type, a locator of one byte behind its length, three integers, the flags and a token. -/
def minJoinRecord : Nat := pipeJoinPrefix.length + 1 + 1 + 1 + 1 + 1 + 1 + 16

/-- A type, a lane key, a pipe and a lane. -/
def minLaneRecord : Nat := pipeLanePrefix.length + Limits.laneKeyBytes + 1 + 1

/-- What the first bytes of a carrier show it to be. -/
inductive FirstBytes where
  | needMore
  | session
  | join
  | lane
  | reject
  deriving DecidableEq, Repr

/-- The kinds of first record that a size leaves possible, with the bytes each begins with. -/
def candidates (size : Nat) (acceptJoin acceptLane : Bool) (maxRecordSize : Nat) :
    List (FirstBytes × Bytes) :=
  -- A kind is possible only where a whole record of it fits into the size.
  (if minTpRecord ≤ size ∧ size ≤ maxRecordSize then [(.session, qxTpPrefix)] else [])
  ++ (if acceptJoin ∧ minJoinRecord ≤ size ∧ size ≤ maxRecordSize then
      [(.join, pipeJoinPrefix)] else [])
  ++ (if acceptLane ∧ minLaneRecord ≤ size ∧ size ≤ maxRecordSize then
      [(.lane, pipeLanePrefix)] else [])

/-- Check the first bytes of a carrier as they arrive, against the kinds of record it may begin with. -/
def classifyFirstBytes (start : Bytes) (acceptJoin : Bool := true) (acceptLane : Bool := false)
    (maxRecordSize : Nat := Limits.zmuxMaxRecordSize) : Except Failure FirstBytes :=
  if start = [] then .ok .needMore
  else do
    let first ← item start 0
    let width := 1 <<< (first.toNat >>> 6)
    if start.length < width then return .needMore
    else do
      let (size, p, _) ← decodeVarint start 0 FE
      let rest := start.drop p
      -- A kind stays alive as long as its first bytes and those received agree where both exist.
      let alive := (candidates size acceptJoin acceptLane maxRecordSize).filter fun kind =>
        kind.2.take rest.length = rest.take kind.2.length
      -- No kind is left, whatever the bytes to come are.
      if alive = [] then return .reject
      else match alive.find? fun kind => rest.length ≥ kind.2.length with
        | some kind => return kind.1
        | none => return .needMore

/-- The loop of `decidedAt` from a number of bytes on. -/
def decidedFrom (record : Bytes) (acceptJoin acceptLane : Bool) (maxRecordSize i : Nat) :
    Except Failure (Nat × FirstBytes) := do
  let res ← classifyFirstBytes (record.take i) acceptJoin acceptLane maxRecordSize
  -- The loop breaks at the first verdict, and otherwise ends with the last byte.
  if res = .needMore ∧ i < record.length then
    decidedFrom record acceptJoin acceptLane maxRecordSize (i + 1)
  else return (i, res)
termination_by record.length - i

/-- The number of bytes of a first record at which it is decided, byte by byte, and the result. -/
def decidedAt (record : Bytes) (acceptJoin : Bool := true) (acceptLane : Bool := false)
    (maxRecordSize : Nat := Limits.zmuxMaxRecordSize) : Except Failure (Nat × FirstBytes) :=
  decidedFrom record acceptJoin acceptLane maxRecordSize 1

end Zmux
