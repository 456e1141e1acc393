import Zmux.Codec.FrameDict

/-! Tables of the fields of frames, with the bytes of each, for the documents that show them. -/

namespace Zmux

open Wire

/-- A row of a table: the name of a field, its bytes, and a note on its value. -/
structure FieldRow where
  name : String
  bytes : Bytes
  note : String
  deriving DecidableEq, Repr

/-- The row of an integer. -/
def vf (name : String) (value : Nat) : Except Failure FieldRow := do
  let bytes ← v value
  return ⟨name, bytes, toString value⟩

/-- The row of a byte string, which is noted by its length unless there is more to say. -/
def bf (name : String) (b : Bytes) (note : Option String := none) : FieldRow :=
  ⟨name, b, note.getD s!"{b.length} bytes"⟩

/-- The rows of several integers, one after the other. -/
def vfs : List (String × Nat) → Except Failure (List FieldRow)
  | [] => .ok []
  | (name, value) :: fields => do
    let head ← vf name value
    let tail ← vfs fields
    return head :: tail

/-- A row that is there only when its field is sent. -/
def rowWhen (sent : Bool) (row : Except Failure FieldRow) : Except Failure (List FieldRow) :=
  if sent then row.map fun row => [row] else .ok []

/-- A byte as it is written between quotes. -/
def byteText (quote byte : UInt8) : String :=
  if byte = quote ∨ byte = 92 then "\\" ++ String.singleton (Char.ofNat byte.toNat)
  else if byte = 9 then "\\t"
  else if byte = 10 then "\\n"
  else if byte = 13 then "\\r"
  else if byte < 32 ∨ byte ≥ 127 then "\\x" ++ hexText [byte]
  else String.singleton (Char.ofNat byte.toNat)

/-- The text that the language shows for a byte string. -/
def bytesRepr (data : Bytes) : String :=
  -- Double quotes are for strings with single quotes and without double ones.
  let quote : UInt8 := if 39 ∈ data ∧ 34 ∉ data then 34 else 39
  let mark := String.singleton (Char.ofNat quote.toNat)
  "b" ++ mark ++ String.join (data.map (byteText quote)) ++ mark

/-- What is noted behind the number of a type. -/
def typeNote (f : Frame) (code : Nat) : String :=
  match f with
  | .stream .. =>
    let flags := (if hasBit code offBit then ["OFF"] else [])
      ++ (if hasBit code lenBit then ["LEN"] else []) ++ if hasBit code finBit then ["FIN"] else []
    "STREAM (" ++ (if flags = [] then "no flags" else "|".intercalate flags) ++ ")"
  | .qxPing response _ => "QX_PING " ++ if response.getD false then "response" else "request"
  | .connectionClose app .. =>
    "CONNECTION_CLOSE (" ++ (if app.getD false then "application" else "transport") ++ ")"
  | f => f.typeText

/-- The name that a parameter goes by in a table. -/
def paramName (pid : TpId) (num : Nat) : String :=
  match pid with
  | .name registered => registered.text
  | .num _ => if isGreaseTp num then s!"GREASE (31*{(num - 27) / 31}+27)" else s!"0x{hex num}"

/-- A number in at least two hexadecimal digits. -/
def hexTwo (value : Nat) : String := if value < 16 then "0" ++ hex value else hex value

/-- What the table says of the value of a parameter. -/
def tpNote (p : Param) : String :=
  match p.content with
  | .raw _ => "opaque"
  | .value .none => "None"
  | .value (.varint v) => toString v
  | .value (.role role nonce) =>
    s!"role {role.text}" ++ match nonce with
      | some nonce => s!", nonce {nonce}"
      | none => ""
  | .value (.lanes maxLanes key) => s!"Max Lanes {maxLanes}, Lane Key {hexText key}"
  | .value (.multipath flags nonce locator) =>
    s!"flags 0x{hexTwo flags}, nonce {hexText nonce}, locator {bytesRepr locator}"
  | .value (.bytes v) => bytesRepr v

/-- The rows of a parameter, the last of which is left out for an empty value. -/
def paramFields (p : Param) : Except Failure (List FieldRow) := do
  let num ← p.id.number
  let name := paramName p.id num
  let val ← encodeTpContent p
  let id ← v num
  let length ← v val.length
  let value := if val = [] then [] else [FieldRow.mk s!"  {name}: Value" val (tpNote p)]
  return ⟨s!"  {name}: ID", id, s!"0x{hex num}"⟩
    :: ⟨s!"  {name}: Length", length, toString val.length⟩ :: value

/-- The rows of all parameters of a block. -/
def paramsFields : List Param → Except Failure (List FieldRow)
  | [] => .ok []
  | p :: params => do
    let head ← paramFields p
    let tail ← paramsFields params
    return head ++ tail

/-- The integers of an entry, with the names they have in a table. -/
def AckEntry.fields (e : AckEntry) : List (String × Nat) :=
  [("  Pipe ID", e.pipe), ("  Lane", e.lane), ("  Position", e.position),
    ("  ACK Delay (us)", e.delay)]

/-- The direction bits of a join that names its direction. -/
def DirectionField.namedCode : DirectionField → Except Failure Nat
  | named direction => entry [(Direction.up, 0), (.down, 1), (.bidi, 2)] direction
  -- The bits themselves are no key of the table of names.
  | bits _ => .error .keyError

/-- A direction is shown by its name, or by its bits. -/
def DirectionField.text : DirectionField → String
  | named direction => direction.text
  | bits value => toString value

/-- A status is shown by its name, or by its number. -/
def StatusField.text : StatusField → String
  | named status => status.text
  | number value => toString value

/-- The rows of a join, whose locator is counted by an integer here. -/
def joinFields (f : Join) : Except Failure (List FieldRow) := do
  let direction ← f.direction.namedCode
  let flags := direction ||| flag 0x04 (f.carrierBound.getD false)
    ||| flag 0x08 (f.standby.getD false)
  let count ← vf "Locator Length" f.locator.length
  let pipe ← vf "Pipe ID" f.pipe
  let flags ← oneByte flags
  let fateGroup ← vf "Fate Group" f.fateGroup
  let priority ← vf "Priority" (f.priority.getD 0)
  let note := s!"direction {f.direction.text}"
    ++ (if f.carrierBound.getD false then ", carrier-bound" else "")
    ++ if f.standby.getD false then ", standby" else ""
  return [count, bf "Session Locator" f.locator (some (bytesRepr f.locator)), pipe,
    ⟨"Flags", flags, note⟩, fateGroup, priority, bf "Join Token" f.token]

section Tables

-- How the language shows the text of a reason is up to its tables of characters.
variable (reasonText : Bytes → String)

/-- The rows of everything that a frame carries behind its type. -/
def typedFields (f : Frame) (code : Nat) : Except Failure (List FieldRow) :=
  match f with
  | .stream id off data _ _ _ => do
    let data := data.getD []
    let head ← vf "Stream ID" id
    let offset ← rowWhen (hasBit code offBit) (vf "Offset" (off.getD 0))
    let length ← rowWhen (hasBit code lenBit) (vf "Length" data.length)
    return head :: offset ++ length ++ [bf "Stream Data" data]
  | .resetStream id code finalSize =>
    vfs [("Stream ID", id), ("Application Error Code", code), ("Final Size", finalSize)]
  | .resetStreamAt id code finalSize reliableSize =>
    vfs [("Stream ID", id), ("Application Error Code", code), ("Final Size", finalSize),
      ("Reliable Size", reliableSize)]
  | .stopSending id code => vfs [("Stream ID", id), ("Application Error Code", code)]
  | .maxData max => vfs [("Maximum Data", max)]
  | .maxStreamData id max => vfs [("Stream ID", id), ("Maximum Stream Data", max)]
  | .maxStreams _ max => vfs [("Maximum Streams", max)]
  | .dataBlocked limit => vfs [("Maximum Data", limit)]
  | .streamDataBlocked id limit => vfs [("Stream ID", id), ("Maximum Stream Data", limit)]
  | .streamsBlocked _ limit => vfs [("Maximum Streams", limit)]
  | .connectionClose app code frameType reason => do
    let head ← vf "Error Code" code
    let cause ← rowWhen (!app.getD false) (vf "Frame Type" (frameType.getD 0))
    let reason := reason.getD []
    let length ← vf "Reason Phrase Length" reason.length
    return head :: cause ++ [length, bf "Reason Phrase" reason (some (reasonText reason))]
  | .datagram data hasLen => do
    let data := data.getD []
    let length ← rowWhen (hasLen.getD true) (vf "Length" data.length)
    return length ++ [bf "Datagram Data" data]
  | .qxTransportParameters (.params params) => do
    let body ← encodeTps params
    let length ← vf "Length" body.length
    let rows ← paramsFields params
    return length :: rows
  -- A block that is given as bytes has no parameters to show.
  | .qxTransportParameters (.raw _) => .error .keyError
  | .qxPing _ seq => vfs [("Sequence Number", seq)]
  | .goaway maxBidi maxUni code =>
    vfs [("Maximum Bidirectional Streams", maxBidi), ("Maximum Unidirectional Streams", maxUni),
      ("Application Protocol Error Code", code)]
  | .priorityUpdate id seq urgency incremental => do
    let b ← priorityByte urgency incremental
    let rows ← vfs [("Stream ID", id), ("Sequence Number", seq)]
    let marked := if incremental.getD false then 1 else 0
    return rows ++ [⟨"Priority", b, s!"urgency {urgency}, incremental {marked}"⟩]
  | .pipeJoin join => joinFields join
  | .pipeAck entries =>
    vfs (("Entry Count", entries.length) :: entries.flatMap AckEntry.fields)
  | .pipeLane key pipe lane => do
    let rows ← vfs [("Pipe ID", pipe), ("Lane", lane)]
    return bf "Lane Key" key :: rows
  | .pipePing => .ok []
  | .pipeAbandon pipe code => do
    let name := (transportErrorName code).getD ""
    let pipe ← vf "Pipe ID" pipe
    let bytes ← v code
    return [pipe, ⟨"Error Code", bytes, s!"0x{hex code} {name}"⟩]
  | .pipeStatus pipe seq status priority => do
    let num ← status.code
    let rows ← vfs [("Pipe ID", pipe), ("Sequence Number", seq)]
    let bytes ← v num
    let priority ← vf "Priority" (priority.getD 0)
    return rows ++ [⟨"Status", bytes, s!"{num} ({status.text})"⟩, priority]
  -- These shapes have been dealt with before.
  | .raw _ | .repeated .. | .padding _ => .error (.valueError f.typeText)

/-- The rows of a frame: its type, and everything behind it. -/
def frameFields (f : Frame) : Except Failure (List FieldRow) :=
  match f with
  | .padding count =>
    .ok [⟨"PADDING", List.replicate (count.getD 1) 0, s!"{count.getD 1} x 0x00"⟩]
  -- Bytes that are written as they are have no number of a type to be encoded.
  | .raw _ => .error .typeError
  | f => do
    let code ← typeCode f
    let bytes ← v code
    let rows ← typedFields reasonText f code
    return ⟨"Type", bytes, s!"0x{hex code} {typeNote f code}"⟩ :: rows

/-- The rows of several frames, one after the other. -/
def framesFields : List Frame → Except Failure (List FieldRow)
  | [] => .ok []
  | f :: frames => do
    let head ← frameFields reasonText f
    let tail ← framesFields frames
    return head ++ tail

/-- The rows of a record: its size, and those of its frames. -/
def recordFields (frames : List Frame) : Except Failure (List FieldRow) := do
  let body ← encodeFrames frames
  let size ← v body.length
  let rows ← framesFields reasonText frames
  return ⟨"Record Size", size, toString body.length⟩ :: rows

end Tables

end Zmux
