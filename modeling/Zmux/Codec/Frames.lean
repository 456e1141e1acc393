import Zmux.Codec.Parameters

/-! Frames and their encoder. -/

namespace Zmux

open Wire

/-- The direction of a join: named, or given as its two bits. -/
inductive DirectionField where
  | named (direction : Direction)
  | bits (value : Nat)
  deriving DecidableEq, Repr

/-- The status of a pipe: named, or given as its number. -/
inductive StatusField where
  | named (status : PipeStatus)
  | number (value : Nat)
  deriving DecidableEq, Repr

/-- The fields of a PIPE_JOIN frame, the optional ones possibly absent. -/
structure Join where
  locator : Bytes
  pipe : Nat
  direction : DirectionField
  carrierBound : Option Bool
  standby : Option Bool
  reservedFlags : Option Nat
  fateGroup : Nat
  priority : Option Nat
  token : Bytes
  deriving DecidableEq, Repr

/-- One entry of a PIPE_ACK frame. -/
structure AckEntry where
  pipe : Nat
  lane : Nat
  position : Nat
  delay : Nat
  deriving DecidableEq, Repr

/-- The contents of a QX_TRANSPORT_PARAMETERS frame: parameters, or the bytes of a block. -/
inductive TpBlock where
  | params (params : List Param)
  | raw (bytes : Bytes)
  deriving DecidableEq, Repr

/-- A frame, where a field that has a default may be absent. -/
inductive Frame where
  /-- Bytes written as they are, which the decoder never produces. -/
  | raw (bytes : Bytes)
  /-- A frame written several times, which the decoder never produces. -/
  | repeated (frame : Frame) (count : Nat)
  | padding (count : Option Nat)
  | stream (id : Nat) (off : Option Nat) (data : Option Bytes) (fin hasOff hasLen : Option Bool)
  | resetStream (id code finalSize : Nat)
  | resetStreamAt (id code finalSize reliableSize : Nat)
  | stopSending (id code : Nat)
  | maxData (max : Nat)
  | maxStreamData (id max : Nat)
  | maxStreams (bidi : Bool) (max : Nat)
  | dataBlocked (limit : Nat)
  | streamDataBlocked (id limit : Nat)
  | streamsBlocked (bidi : Bool) (limit : Nat)
  | connectionClose (app : Option Bool) (code : Nat) (frameType : Option Nat)
      (reason : Option Bytes)
  | datagram (data : Option Bytes) (hasLen : Option Bool)
  | qxTransportParameters (block : TpBlock)
  | qxPing (response : Option Bool) (seq : Nat)
  | goaway (maxBidi maxUni code : Nat)
  | priorityUpdate (id seq urgency : Nat) (incremental : Option Bool)
  | pipeJoin (join : Join)
  | pipeAck (entries : List AckEntry)
  | pipeLane (key : Bytes) (pipe lane : Nat)
  | pipePing
  | pipeAbandon (pipe code : Nat)
  | pipeStatus (pipe seq : Nat) (status : StatusField) (priority : Option Nat)
  deriving DecidableEq, Repr

/-- The type of a STREAM frame without any of its bits. -/
def streamBase : Nat := 0x08

/-- The bit of the type that says there is an offset. -/
def offBit : Nat := 0x04

/-- The bit of the type that says there is a length. -/
def lenBit : Nat := 0x02

/-- The bit of the type that says the stream ends. -/
def finBit : Nat := 0x01

/-- A bit of a type or of a flags byte that is set. -/
def hasBit (value mask : Nat) : Bool := decide (value &&& mask ≠ 0)

/-- One bit of a type or of a flags byte, set or not. -/
def flag (mask : Nat) (present : Bool) : Nat := if present then mask else 0

/-- The lowest type of the range a name is registered for. -/
def firstType (name : FrameName) : Except Failure Nat := (frameByName name).map FrameMeta.first

/-- The numeric type of a frame, with the flag bits of the types that have them. -/
def typeCode : Frame → Except Failure Nat
  | .stream _ off _ fin hasOff hasLen =>
    -- Without a word on it, an offset is sent exactly when it is not zero.
    let off := hasOff.getD (decide (off.getD 0 > 0))
    let ln := hasLen.getD true
    .ok (streamBase ||| flag offBit off ||| flag lenBit ln ||| flag finBit (fin.getD false))
  | .maxStreams bidi _ => .ok (if bidi then 0x12 else 0x13)
  | .streamsBlocked bidi _ => .ok (if bidi then 0x16 else 0x17)
  | .connectionClose app _ _ _ => .ok (if app.getD false then 0x1D else 0x1C)
  | .datagram _ hasLen => .ok (if hasLen.getD true then 0x31 else 0x30)
  | .qxPing response _ =>
    .ok (if response.getD false then 0x348C67529EF8C7BE else 0x348C67529EF8C7BD)
  -- Raw and repeated frames have no entry in the table of types.
  | .raw _ | .repeated .. => .error .keyError
  | .padding _ => firstType .padding
  | .resetStream .. => firstType .resetStream
  | .resetStreamAt .. => firstType .resetStreamAt
  | .stopSending .. => firstType .stopSending
  | .maxData _ => firstType .maxData
  | .maxStreamData .. => firstType .maxStreamData
  | .dataBlocked _ => firstType .dataBlocked
  | .streamDataBlocked .. => firstType .streamDataBlocked
  | .qxTransportParameters _ => firstType .qxTransportParameters
  | .goaway .. => firstType .goaway
  | .priorityUpdate .. => firstType .priorityUpdate
  | .pipeJoin _ => firstType .pipeJoin
  | .pipeAck _ => firstType .pipeAck
  | .pipeLane .. => firstType .pipeLane
  | .pipePing => firstType .pipePing
  | .pipeAbandon .. => firstType .pipeAbandon
  | .pipeStatus .. => firstType .pipeStatus

/-- The encodings of several integers, one after the other. -/
def vs : List Nat → Except Failure Bytes
  | [] => .ok []
  | value :: values => do
    let head ← v value
    let tail ← vs values
    return head ++ tail

/-- Urgency and flag in one byte. -/
def priorityByte (urgency : Nat) (incremental : Option Bool) : Except Failure Bytes := do
  raiseIf (¬ (0 ≤ urgency ∧ urgency ≤ 7)) (.valueError "urgency out of range")
  -- The urgency takes the three high bits, and the incremental bit is the one below them.
  oneByte ((urgency <<< 5) ||| flag 0x10 (incremental.getD false))

/-- The two direction bits of a join. -/
def DirectionField.code : DirectionField → Except Failure Nat
  | named direction => entry [(Direction.up, 0), (.down, 1), (.bidi, 2)] direction
  | bits value => .ok value

/-- The number a status is sent as. -/
def StatusField.code : StatusField → Except Failure Nat
  | named status => entry [(PipeStatus.available, 0), (.standby, 1)] status
  | number value => .ok value

/-- The fields of a join in the order in which they are sent. -/
def encodeJoinBody (f : Join) : Except Failure Bytes := do
  let direction ← f.direction.code
  let flags := direction ||| flag pipeJoinFlagCarrierBound (f.carrierBound.getD false)
    ||| flag pipeJoinFlagStandby (f.standby.getD false) ||| f.reservedFlags.getD 0
  -- The fields are encoded in the order in which they are sent, so the first failure is the first
  -- field's.
  let count ← oneByte f.locator.length
  let pipe ← v f.pipe
  let flags ← oneByte flags
  let fateGroup ← v f.fateGroup
  let priority ← v (f.priority.getD pipePriorityDefault)
  return count ++ f.locator ++ pipe ++ flags ++ fateGroup ++ priority ++ f.token

/-- The integers of an acknowledgement's entries, in the order they are sent. -/
def AckEntry.values (entry : AckEntry) : List Nat :=
  [entry.pipe, entry.lane, entry.position, entry.delay]

/-- A byte string behind its own length. -/
def counted (data : Bytes) : Except Failure Bytes := do
  let count ← v data.length
  return count ++ data

/-- Data behind its length, or alone when it runs to the end of its record. -/
def encodeData (hasLen : Bool) (data : Bytes) : Except Failure Bytes :=
  if hasLen then counted data else .ok data

/-- A field that is sent only under a condition. -/
def encodeWhen (sent : Bool) (field : Except Failure Bytes) : Except Failure Bytes :=
  if sent then field else .ok []

/-- A block of parameters in bytes, or bytes that are one. -/
def TpBlock.encode : TpBlock → Except Failure Bytes
  | .params list => encodeTps list
  | .raw bytes => .ok bytes

/-- Everything a frame carries behind its type. -/
def encodeFields (f : Frame) (code : Nat) : Except Failure Bytes :=
  match f with
  | .stream id off data _ _ _ => do
    let head ← v id
    -- Whether the offset and the length are sent is read off the type, not off the frame.
    let offset ← encodeWhen (hasBit code offBit) (v (off.getD 0))
    let tail ← encodeData (hasBit code lenBit) (data.getD [])
    return head ++ offset ++ tail
  | .resetStream id code finalSize => vs [id, code, finalSize]
  | .resetStreamAt id code finalSize reliableSize => vs [id, code, finalSize, reliableSize]
  | .stopSending id code => vs [id, code]
  | .maxData max => vs [max]
  | .maxStreamData id max => vs [id, max]
  | .maxStreams _ max => vs [max]
  | .dataBlocked limit => vs [limit]
  | .streamDataBlocked id limit => vs [id, limit]
  | .streamsBlocked _ limit => vs [limit]
  | .connectionClose app code frameType reason => do
    let head ← v code
    -- The type of the frame at fault is sent by the transport only, not by an application.
    let cause ← encodeWhen (!app.getD false) (v (frameType.getD 0))
    let tail ← counted (reason.getD [])
    return head ++ cause ++ tail
  | .datagram data hasLen => encodeData (hasLen.getD true) (data.getD [])
  | .qxTransportParameters block => do
    let body ← block.encode
    counted body
  | .qxPing _ seq => vs [seq]
  | .goaway maxBidi maxUni code => vs [maxBidi, maxUni, code]
  | .priorityUpdate id seq urgency incremental => do
    let head ← vs [id, seq]
    let byte ← priorityByte urgency incremental
    return head ++ byte
  | .pipeJoin join => encodeJoinBody join
  -- The entries follow their number, each as four integers.
  | .pipeAck entries => vs (entries.length :: entries.flatMap AckEntry.values)
  | .pipeLane key pipe lane => do
    let key ← laneKey key
    let tail ← vs [pipe, lane]
    return key ++ tail
  | .pipePing => .ok []
  | .pipeAbandon pipe code => vs [pipe, code]
  | .pipeStatus pipe seq status priority => do
    let status ← status.code
    vs [pipe, seq, status, priority.getD pipePriorityDefault]
  -- These shapes are written by the encoder before it looks at fields.
  | .raw _ | .repeated .. | .padding _ => .error (.valueError "cannot encode frame type")

/-- The bytes of a frame, with its type in the shortest form unless a width is forced. -/
def encodeFrame (f : Frame) (typeWidth : Option Nat := none) : Except Failure Bytes :=
  match f with
  -- These three shapes have no type of their own to be written.
  | .raw bytes => .ok bytes
  | .repeated inner count => do
    let once ← encodeFrame inner
    return (List.replicate count once).flatten
  | .padding count => .ok (List.replicate (count.getD 1) 0)
  | f => do
    let code ← typeCode f
    -- Only the width of the type can be forced: every integer behind it is written short.
    let head ← encodeVarint code typeWidth
    let fields ← encodeFields f code
    return head ++ fields

/-- The Frames field of a record, which is one message on a message-framed carrier. -/
def encodeFrames : List Frame → Except Failure Bytes
  | [] => .ok []
  | f :: frames => do
    let head ← encodeFrame f
    let tail ← encodeFrames frames
    return head ++ tail

/-- The encoding of a join from its type through its priority, the prefix of the MAC input. -/
def joinBytesWithoutToken (f : Join) : Except Failure Bytes := do
  let full ← encodeFrame (.pipeJoin f)
  -- The token is the last 16 bytes of every join.
  return full.take (full.length - 16)

end Zmux
