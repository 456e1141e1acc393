import Zmux.Codec.JsonForm
import Zmux.Codec.Records

/-! Frames as the dicts they are given in, and the encoder on dicts. -/

namespace Zmux

open Wire

/-- The text of a role. -/
def Role.text : Role → String
  | initiator => "initiator"
  | responder => "responder"
  | auto => "auto"

/-- The text of a direction. -/
def Direction.text : Direction → String
  | up => "up"
  | down => "down"
  | bidi => "bidi"

/-- The text of a status. -/
def PipeStatus.text : PipeStatus → String
  | available => "available"
  | standby => "standby"

/-- A number that is not negative, as all numbers in frames are. -/
def Value.nat (number : Nat) : Value := .int (Int.ofNat number)

/-- A field that may be absent. -/
def optional {α : Type} (key : String) (form : α → Value) : Option α → Fields
  | none => []
  | some value => [(key, form value)]

/-- The value of a transport parameter, a dict for the three that have several parts. -/
def TpValue.form : TpValue → Value
  | none => .none
  | varint value => .nat value
  | role who nonce => .dict (("role", .str who.text) :: optional "nonce" .nat nonce)
  | multipath flags nonce locator =>
    .dict [("flags", .nat flags), ("nonce", .bytes nonce), ("locator", .bytes locator)]
  | lanes maxLanes key => .dict [("max_lanes", .nat maxLanes), ("lane_key", .bytes key)]
  | bytes value => .bytes value

/-- A parameter is called by its number, or by its name. -/
def TpId.form : TpId → Value
  | num id => .nat id
  | name registered => .str registered.text

/-- The dict of a parameter, with its bytes or its value. -/
def Param.dict (param : Param) : Value :=
  let content := match param.content with
    | .raw bytes => ("raw", Value.bytes bytes)
    | .value value => ("value", value.form)
  .dict [("id", param.id.form), content]

/-- A direction is a name, or bits. -/
def DirectionField.form : DirectionField → Value
  | named direction => .str direction.text
  | bits value => .nat value

/-- A status is a name, or a number. -/
def StatusField.form : StatusField → Value
  | named status => .str status.text
  | number value => .nat value

/-- The dict of an entry. -/
def AckEntry.dict (entry : AckEntry) : Value :=
  .dict [("pipe", .nat entry.pipe), ("lane", .nat entry.lane), ("position", .nat entry.position),
    ("delay", .nat entry.delay)]

/-- The type of a frame, as its dict names it. -/
def Frame.typeText : Frame → String
  | raw _ => "RAW"
  | repeated .. => "REPEAT"
  | padding _ => FrameName.padding.text
  | stream .. => FrameName.stream.text
  | resetStream .. => FrameName.resetStream.text
  | resetStreamAt .. => FrameName.resetStreamAt.text
  | stopSending .. => FrameName.stopSending.text
  | maxData _ => FrameName.maxData.text
  | maxStreamData .. => FrameName.maxStreamData.text
  | maxStreams .. => FrameName.maxStreams.text
  | dataBlocked _ => FrameName.dataBlocked.text
  | streamDataBlocked .. => FrameName.streamDataBlocked.text
  | streamsBlocked .. => FrameName.streamsBlocked.text
  | connectionClose .. => FrameName.connectionClose.text
  | datagram .. => FrameName.datagram.text
  | qxTransportParameters _ => FrameName.qxTransportParameters.text
  | qxPing .. => FrameName.qxPing.text
  | goaway .. => FrameName.goaway.text
  | priorityUpdate .. => FrameName.priorityUpdate.text
  | pipeJoin _ => FrameName.pipeJoin.text
  | pipeAck _ => FrameName.pipeAck.text
  | pipeLane .. => FrameName.pipeLane.text
  | pipePing => FrameName.pipePing.text
  | pipeAbandon .. => FrameName.pipeAbandon.text
  | pipeStatus .. => FrameName.pipeStatus.text

/-- The fields of a join, of which some may be left out. -/
def Join.parts (join : Join) : Fields :=
  [("locator", .bytes join.locator), ("pipe", .nat join.pipe),
    ("direction", join.direction.form)] ++ optional "carrier_bound" .bool join.carrierBound
    ++ optional "standby" .bool join.standby ++ optional "reserved_flags" .nat join.reservedFlags
    ++ [("fate_group", .nat join.fateGroup)] ++ optional "priority" .nat join.priority
    ++ [("token", .bytes join.token)]

/-- The fields of a frame behind its type, under the names they have in its dict. -/
def Frame.parts : Frame → Fields
  | raw bytes => [("bytes", .bytes bytes)]
  | repeated frame count =>
    [("count", .nat count), ("frame", .dict (("type", .str frame.typeText) :: frame.parts))]
  | padding count => optional "count" .nat count
  | stream id off data fin hasOff hasLen =>
    [("id", .nat id)] ++ optional "off" .nat off ++ optional "data" .bytes data
      ++ optional "fin" .bool fin ++ optional "has_off" .bool hasOff
      ++ optional "has_len" .bool hasLen
  | resetStream id code finalSize =>
    [("id", .nat id), ("code", .nat code), ("final_size", .nat finalSize)]
  | resetStreamAt id code finalSize reliableSize =>
    [("id", .nat id), ("code", .nat code), ("final_size", .nat finalSize),
      ("reliable_size", .nat reliableSize)]
  | stopSending id code => [("id", .nat id), ("code", .nat code)]
  | maxData max => [("max", .nat max)]
  | maxStreamData id max => [("id", .nat id), ("max", .nat max)]
  | maxStreams bidi max => [("bidi", .bool bidi), ("max", .nat max)]
  | dataBlocked limit => [("limit", .nat limit)]
  | streamDataBlocked id limit => [("id", .nat id), ("limit", .nat limit)]
  | streamsBlocked bidi limit => [("bidi", .bool bidi), ("limit", .nat limit)]
  | connectionClose app code frameType reason =>
    optional "app" .bool app ++ [("code", .nat code)] ++ optional "frame_type" .nat frameType
      ++ optional "reason" .bytes reason
  | datagram data hasLen => optional "has_len" .bool hasLen ++ optional "data" .bytes data
  | qxTransportParameters (.params params) => [("params", .list (params.map Param.dict))]
  | qxTransportParameters (.raw bytes) => [("raw", .bytes bytes)]
  | qxPing response seq => optional "response" .bool response ++ [("seq", .nat seq)]
  | goaway maxBidi maxUni code =>
    [("max_bidi", .nat maxBidi), ("max_uni", .nat maxUni), ("code", .nat code)]
  | priorityUpdate id seq urgency incremental =>
    [("id", .nat id), ("seq", .nat seq), ("urgency", .nat urgency)]
      ++ optional "incremental" .bool incremental
  | pipeJoin join => join.parts
  | pipeAck entries => [("entries", .list (entries.map AckEntry.dict))]
  | pipeLane key pipe lane => [("lane_key", .bytes key), ("pipe", .nat pipe), ("lane", .nat lane)]
  | pipePing => []
  | pipeAbandon pipe code => [("pipe", .nat pipe), ("code", .nat code)]
  | pipeStatus pipe seq status priority =>
    [("pipe", .nat pipe), ("seq", .nat seq), ("status", status.form)]
      ++ optional "priority" .nat priority

/-- The dict of a frame: its type, and the fields that are present. -/
def Frame.dict (f : Frame) : Value := .dict (("type", .str f.typeText) :: f.parts)

section Reading

/-- The number that a value is. -/
def Value.natural : Value → Option Nat
  | .int (.ofNat number) => some number
  | _ => .none

/-- The flag that a value is. -/
def Value.flag : Value → Option Bool
  | .bool flag => some flag
  | _ => .none

/-- The text that a value is. -/
def Value.text : Value → Option String
  | .str text => some text
  | _ => .none

/-- The bytes that a value is. -/
def Value.data : Value → Option Bytes
  | .bytes data => some data
  | _ => .none

/-- Every item of a list, read one by one. -/
def Value.items {α : Type} (read : Value → Option α) : Value → Option (List α)
  | .list items => items.mapM read
  | _ => .none

/-- A field that must be there. -/
def field {α : Type} (fields : Fields) (key : String) (read : Value → Option α) : Option α :=
  (fields.lookup key).bind read

/-- A field that may be absent, but must be of its kind when it is there. -/
def optionalField {α : Type} (fields : Fields) (key : String) (read : Value → Option α) :
    Option (Option α) :=
  match fields.lookup key with
  | none => some none
  | some value => (read value).map some

/-- The member of an enumeration that a text names. -/
def memberOf {α : Type} (members : List α) (text : α → String) (written : String) : Option α :=
  members.find? fun member => text member = written

/-- The names of all frames of the registry. -/
def frameNames : List FrameName := frameTypes.map FrameMeta.name

/-- The names of all parameters of the registry. -/
def tpNames : List TpName := transportParameters.map TpMeta.name

/-- The directions of the registry. -/
def directions : List Direction := pipeDirections.map Prod.snd

/-- The roles of the registry. -/
def roles : List Role := roleValues.map Prod.snd

/-- The statuses of the registry. -/
def statuses : List PipeStatus := pipeStatusValues.map Prod.snd

/-- A parameter as it is called, by number or by name. -/
def TpId.ofValue : Value → Option TpId
  | .int (.ofNat id) => some (.num id)
  | .str written => (memberOf tpNames TpName.text written).map .name
  | _ => .none

/-- The parts of a value tell the three kinds of dicts apart. -/
def TpValue.ofFields (fields : Fields) : Option TpValue :=
  if hasField fields "role" then do
    let written ← field fields "role" Value.text
    let role ← memberOf roles Role.text written
    let nonce ← optionalField fields "nonce" Value.natural
    return .role role nonce
  else if hasField fields "lane_key" then do
    let maxLanes ← field fields "max_lanes" Value.natural
    let key ← field fields "lane_key" Value.data
    return .lanes maxLanes key
  else do
    let flags ← field fields "flags" Value.natural
    let nonce ← field fields "nonce" Value.data
    let locator ← field fields "locator" Value.data
    return .multipath flags nonce locator

/-- The value of a parameter, by the kind of value that it is. -/
def TpValue.ofValue : Value → Option TpValue
  | .none => some .none
  | .int (.ofNat value) => some (.varint value)
  | .bytes value => some (.bytes value)
  | .dict fields => TpValue.ofFields fields
  | _ => .none

/-- The parameter that a dict is, which has bytes or a value. -/
def Param.ofDict : Value → Option Param
  | .dict fields => do
    let id ← field fields "id" TpId.ofValue
    match fields.lookup "raw" with
    | some raw => do
      let bytes ← raw.data
      return ⟨id, .raw bytes⟩
    | none => do
      -- A parameter without a value has an empty one.
      let value ← optionalField fields "value" TpValue.ofValue
      return ⟨id, .value (value.getD .none)⟩
  | _ => .none

/-- A direction as it is given, by name or by bits. -/
def DirectionField.ofValue : Value → Option DirectionField
  | .str written => (memberOf directions Direction.text written).map .named
  | .int (.ofNat value) => some (.bits value)
  | _ => .none

/-- A status as it is given, by name or by number. -/
def StatusField.ofValue : Value → Option StatusField
  | .str written => (memberOf statuses PipeStatus.text written).map .named
  | .int (.ofNat value) => some (.number value)
  | _ => .none

/-- The entry that a dict is. -/
def AckEntry.ofDict : Value → Option AckEntry
  | .dict fields => do
    let pipe ← field fields "pipe" Value.natural
    let lane ← field fields "lane" Value.natural
    let position ← field fields "position" Value.natural
    let delay ← field fields "delay" Value.natural
    return ⟨pipe, lane, position, delay⟩
  | _ => .none

/-- The join that fields are. -/
def Join.ofFields (fields : Fields) : Option Join := do
  let locator ← field fields "locator" Value.data
  let pipe ← field fields "pipe" Value.natural
  let direction ← field fields "direction" DirectionField.ofValue
  let carrierBound ← optionalField fields "carrier_bound" Value.flag
  let standby ← optionalField fields "standby" Value.flag
  let reservedFlags ← optionalField fields "reserved_flags" Value.natural
  let fateGroup ← field fields "fate_group" Value.natural
  let priority ← optionalField fields "priority" Value.natural
  let token ← field fields "token" Value.data
  return ⟨locator, pipe, direction, carrierBound, standby, reservedFlags, fateGroup, priority, token⟩

/-- The contents of a block are its parameters if they are given, and its bytes otherwise. -/
def TpBlock.ofFields (fields : Fields) : Option TpBlock :=
  if hasField fields "params" then
    (field fields "params" (Value.items Param.ofDict)).map .params
  else (field fields "raw" Value.data).map .raw

/-- The frame of a type whose fields are given. -/
def Frame.ofFields (name : FrameName) (fields : Fields) : Option Frame :=
  let number (key : String) := field fields key Value.natural
  match name with
  | .padding => do
    let count ← optionalField fields "count" Value.natural
    return .padding count
  | .stream => do
    let id ← number "id"
    let off ← optionalField fields "off" Value.natural
    let data ← optionalField fields "data" Value.data
    let fin ← optionalField fields "fin" Value.flag
    let hasOff ← optionalField fields "has_off" Value.flag
    let hasLen ← optionalField fields "has_len" Value.flag
    return .stream id off data fin hasOff hasLen
  | .resetStream => return .resetStream (← number "id") (← number "code") (← number "final_size")
  | .resetStreamAt =>
    return .resetStreamAt (← number "id") (← number "code") (← number "final_size")
      (← number "reliable_size")
  | .stopSending => return .stopSending (← number "id") (← number "code")
  | .maxData => return .maxData (← number "max")
  | .maxStreamData => return .maxStreamData (← number "id") (← number "max")
  | .maxStreams => return .maxStreams (← field fields "bidi" Value.flag) (← number "max")
  | .dataBlocked => return .dataBlocked (← number "limit")
  | .streamDataBlocked => return .streamDataBlocked (← number "id") (← number "limit")
  | .streamsBlocked => return .streamsBlocked (← field fields "bidi" Value.flag) (← number "limit")
  | .connectionClose => do
    let app ← optionalField fields "app" Value.flag
    let code ← number "code"
    let frameType ← optionalField fields "frame_type" Value.natural
    let reason ← optionalField fields "reason" Value.data
    return .connectionClose app code frameType reason
  | .datagram => do
    let data ← optionalField fields "data" Value.data
    let hasLen ← optionalField fields "has_len" Value.flag
    return .datagram data hasLen
  | .qxTransportParameters => (TpBlock.ofFields fields).map .qxTransportParameters
  | .qxPing =>
    return .qxPing (← optionalField fields "response" Value.flag) (← number "seq")
  | .goaway => return .goaway (← number "max_bidi") (← number "max_uni") (← number "code")
  | .priorityUpdate => do
    let incremental ← optionalField fields "incremental" Value.flag
    return .priorityUpdate (← number "id") (← number "seq") (← number "urgency") incremental
  | .pipeJoin => (Join.ofFields fields).map .pipeJoin
  | .pipeAck => (field fields "entries" (Value.items AckEntry.ofDict)).map .pipeAck
  | .pipeLane =>
    return .pipeLane (← field fields "lane_key" Value.data) (← number "pipe") (← number "lane")
  | .pipePing => some .pipePing
  | .pipeAbandon => return .pipeAbandon (← number "pipe") (← number "code")
  | .pipeStatus => do
    let status ← field fields "status" StatusField.ofValue
    let priority ← optionalField fields "priority" Value.natural
    return .pipeStatus (← number "pipe") (← number "seq") status priority
  -- The other types of the registry are prohibited, and have no fields.
  | _ => none

/-- The frame of a dict, where the frame that a REPEAT holds has been read already. -/
def Frame.ofDictWith (fields : Fields) (inner : Option Frame) : Option Frame := do
  let type ← field fields "type" Value.text
  if type = "RAW" then (field fields "bytes" Value.data).map .raw
  else if type = "REPEAT" then do
    let count ← field fields "count" Value.natural
    let frame ← inner
    return .repeated frame count
  else do
    let name ← memberOf frameNames FrameName.text type
    Frame.ofFields name fields

mutual

/-- The frame that a dict stands for, if it stands for one. -/
def Frame.ofDict : Value → Option Frame
  | .dict fields => Frame.ofDictWith fields (Frame.ofInner fields)
  | _ => none

/-- The frame under the key that a REPEAT holds its frame under. -/
def Frame.ofInner : Fields → Option Frame
  | [] => none
  | (key, value) :: fields => if key = "frame" then Frame.ofDict value else Frame.ofInner fields

end

end Reading

/-- The frames of a record that is given as a list of dicts. -/
def framesOf : Value → Option (List Frame) := Value.items Frame.ofDict

/-- The records that are given as lists of dicts. -/
def recordsOf : Value → Option (List (List Frame)) := Value.items framesOf

/-- Encode what was read from a value, which must have been the dicts of frames. -/
def encodeRead {α : Type} (encode : α → Except Failure Bytes) : Option α → Except Failure Bytes
  | some frames => encode frames
  -- A dict that is no frame is refused where the encoder looks for what it lacks.
  | none => .error .typeError

/-- The bytes of the frame that a dict is. -/
def encodeFrameDict (f : Value) : Except Failure Bytes :=
  encodeRead (fun f => encodeFrame f) (Frame.ofDict f)

/-- The bytes of the frames of a message that is given as a list of dicts. -/
def encodeFramesDict (frames : Value) : Except Failure Bytes :=
  encodeRead encodeFrames (framesOf frames)

/-- The bytes of the records that a list is. -/
def recordBytesDict (records : Value) : Except Failure Bytes :=
  encodeRead recordBytes (recordsOf records)

end Zmux
