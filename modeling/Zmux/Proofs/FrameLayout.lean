import Zmux.Codec.FrameDecoder
import Zmux.Proofs.ParameterBlock

/-! How each frame is laid out on the wire, and which frames the decoder gives. -/

namespace Zmux

open Wire

/-- Several numbers, one after the other. -/
def nums : List Nat → Layout
  -- A frame of plain integers has no other delimiters.
  | [] => .done
  | value :: values => .num value (nums values)

/-- Data behind its byte count, or data that runs to the end. -/
def dataLayout (hasLen : Bool) (data : Bytes) : Layout :=
  -- Without a count, only the end of the record ends the data.
  if hasLen then .sized (.bytes data .done) .done else .bytes data .done

/-- The two bits of each direction. -/
def Direction.code : Direction → Nat
  | up => 0
  | down => 1
  | bidi => 2

/-- The number of each status. -/
def PipeStatus.code : PipeStatus → Nat
  | available => 0
  | standby => 1

/-- The direction bits of a join, a name standing for its own. -/
def DirectionField.value : DirectionField → Nat
  | named direction => direction.code
  | bits value => value

/-- The number of a status, a name standing for its own. -/
def StatusField.value : StatusField → Nat
  | named status => status.code
  | number value => value

/-- The flags byte of a join. -/
def Join.flags (join : Join) : Nat :=
  -- The parts are put together as the encoder does it, whether or not they overlap.
  join.direction.value ||| flag pipeJoinFlagCarrierBound (join.carrierBound.getD false)
    ||| flag pipeJoinFlagStandby (join.standby.getD false) ||| join.reservedFlags.getD 0

/-- Everything of a join that its token authenticates. -/
def Join.body (join : Join) : Layout :=
  -- The count of the locator is a byte of its own, not a variable-length integer.
  .bytes (UInt8.ofNat join.locator.length :: join.locator) (.num join.pipe
    (.bytes [UInt8.ofNat join.flags]
      (nums [join.fateGroup, join.priority.getD pipePriorityDefault])))

/-- The last byte of a priority update. -/
def priorityBits (urgency : Nat) (incremental : Option Bool) : Nat :=
  (urgency <<< 5) ||| flag 0x10 (incremental.getD false)

/-- What a frame carries behind its type. -/
def Frame.fields : Frame → Layout
  | .stream id off data _ hasOff hasLen =>
    -- An absent flag counts as in the encoder: no offset is sent, and a length is.
    .num id ((if hasOff.getD false then nums [off.getD 0] else .done)
      ++ dataLayout (hasLen.getD true) (data.getD []))
  | .resetStream id code finalSize => nums [id, code, finalSize]
  | .resetStreamAt id code finalSize reliableSize => nums [id, code, finalSize, reliableSize]
  | .stopSending id code => nums [id, code]
  | .maxData max => nums [max]
  | .maxStreamData id max => nums [id, max]
  | .maxStreams _ max => nums [max]
  | .dataBlocked limit => nums [limit]
  | .streamDataBlocked id limit => nums [id, limit]
  | .streamsBlocked _ limit => nums [limit]
  | .connectionClose app code frameType reason =>
    .num code ((if app.getD false then .done else nums [frameType.getD 0])
      ++ dataLayout true (reason.getD []))
  | .datagram data hasLen => dataLayout (hasLen.getD true) (data.getD [])
  | .qxTransportParameters (.params params) => .sized (tpsLayout params) .done
  | .qxPing _ seq => nums [seq]
  | .goaway maxBidi maxUni code => nums [maxBidi, maxUni, code]
  | .priorityUpdate id seq urgency incremental =>
    nums [id, seq] ++ .bytes [UInt8.ofNat (priorityBits urgency incremental)] .done
  | .pipeJoin join => join.body ++ .bytes join.token .done
  | .pipeAck entries => nums (entries.length :: entries.flatMap AckEntry.values)
  | .pipeLane key pipe lane => .bytes key (nums [pipe, lane])
  | .pipeAbandon pipe code => nums [pipe, code]
  | .pipeStatus pipe seq status priority =>
    nums [pipe, seq, status.value, priority.getD pipePriorityDefault]
  -- What is left has no fields, or is never laid out by its fields.
  | _ => .done

/-- Each entry of an acknowledgement is above the one before it. -/
def Ascending (entries : List AckEntry) : Prop :=
  -- The order is strict in the pair of pipe and lane.
  List.IsChain (fun last e => ¬ e.notAbove last) entries

/-- A join as the decoder gives it. -/
structure Join.Decoded (join : Join) : Prop where
  locator : 1 ≤ join.locator.length ∧ join.locator.length ≤ Limits.maxLocatorBytes
  direction : ∃ direction, join.direction = .named direction
  carrierBound : ∃ set, join.carrierBound = some set
  standby : ∃ set, join.standby = some set
  reservedFlags : join.reservedFlags = none
  priority : ∃ number, join.priority = some number
  token : join.token.length = 16

/-- A frame as the decoder gives it: nothing left to a default, and within the bounds it checks. -/
def Frame.Decoded : Frame → Prop
  | .padding (some count) => 0 < count
  | .stream _ (some off) (some data) (some _) (some hasOff) (some _) =>
    -- An offset that is not sent is read as zero.
    (hasOff = false → off = 0) ∧ off + data.length ≤ maxVarint
  | .resetStreamAt _ _ finalSize reliableSize => reliableSize ≤ finalSize
  | .maxStreams _ max => ¬ beyondStreams max
  | .streamsBlocked _ limit => ¬ beyondStreams limit
  | .connectionClose (some app) _ frameType (some _) => frameType.isNone = app
  | .datagram (some _) (some _) => True
  | .qxTransportParameters (.params params) => DecodedTps params
  | .qxPing (some _) _ => True
  | .goaway maxBidi maxUni _ => ¬ beyondStreams maxBidi ∧ ¬ beyondStreams maxUni
  | .priorityUpdate _ _ urgency (some _) => urgency ≤ 7
  | .pipeJoin join => join.Decoded
  | .pipeAck entries => entries ≠ [] ∧ Ascending entries
  | .pipeLane key _ _ => key.length = Limits.laneKeyBytes
  | .pipeStatus _ _ (.named _) (some _) => True
  | .resetStream .. | .stopSending .. | .maxData _ | .maxStreamData .. | .dataBlocked _
  | .streamDataBlocked .. | .pipePing | .pipeAbandon .. => True
  -- A default left open, or a shape that only the encoder has.
  | _ => False

/-- A frame whose data has no byte count takes everything up to the end of its record. -/
def Frame.RunsToEnd : Frame → Prop
  | .stream _ _ _ _ _ hasLen => hasLen.getD true = false
  | .datagram _ hasLen => hasLen.getD true = false
  | _ => False

/-- The registered name of a frame that has a type and fields. -/
def Frame.name : Frame → Option FrameName
  | .raw _ | .repeated .. | .padding _ => none
  | .stream .. => some .stream
  | .resetStream .. => some .resetStream
  | .resetStreamAt .. => some .resetStreamAt
  | .stopSending .. => some .stopSending
  | .maxData _ => some .maxData
  | .maxStreamData .. => some .maxStreamData
  | .maxStreams .. => some .maxStreams
  | .dataBlocked _ => some .dataBlocked
  | .streamDataBlocked .. => some .streamDataBlocked
  | .streamsBlocked .. => some .streamsBlocked
  | .connectionClose .. => some .connectionClose
  | .datagram .. => some .datagram
  | .qxTransportParameters _ => some .qxTransportParameters
  | .qxPing .. => some .qxPing
  | .goaway .. => some .goaway
  | .priorityUpdate .. => some .priorityUpdate
  | .pipeJoin _ => some .pipeJoin
  | .pipeAck _ => some .pipeAck
  | .pipeLane .. => some .pipeLane
  | .pipePing => some .pipePing
  | .pipeAbandon .. => some .pipeAbandon
  | .pipeStatus .. => some .pipeStatus

/-- The flags of a frame are those that a type has set. -/
def Frame.Flagged (code : Nat) : Frame → Prop
  | .stream _ _ _ fin hasOff hasLen => fin = some (hasBit code finBit) ∧
    hasOff = some (hasBit code offBit) ∧ hasLen = some (hasBit code lenBit)
  | .maxStreams bidi _ => bidi = decide (code = 0x12)
  | .streamsBlocked bidi _ => bidi = decide (code = 0x16)
  | .connectionClose app _ _ _ => app = some (decide (code = 0x1D))
  | .datagram _ hasLen => hasLen = some (decide (code = 0x31))
  | .qxPing response _ => response = some (decide (code = 0x348C67529EF8C7BE))
  | _ => True

/-- The type of a frame, zero standing for none. -/
def Frame.code (f : Frame) : Nat :=
  match typeCode f with
  | .ok code => code
  -- Frames without a type are never laid out by it.
  | .error _ => 0

/-- A frame is its type in the shortest form, then its fields, or it is a run of padding. -/
def Frame.layout : Frame → Layout
  | .padding count => .bytes (List.replicate (count.getD 1) 0) .done
  -- The width of the type is fixed, so it is laid out as bytes and not as a number.
  | f => .bytes (varintForm f.code (varintShortest f.code)) f.fields

/-- A payload is its frames, one after the other. -/
def framesLayout : List Frame → Layout
  | [] => .done
  | f :: frames => f.layout ++ framesLayout frames

end Zmux
