import Zmux.Codec.Frames
import Zmux.Codec.Reading

/-! The decoder of frames, from one frame to the frames of a whole payload. -/

namespace Zmux

open Wire

/-- A count of streams that no peer may announce. -/
def beyondStreams (count : Nat) : Prop := count > 1 <<< 60

instance (count : Nat) : Decidable (beyondStreams count) :=
  inferInstanceAs (Decidable (count > 1 <<< 60))

/-- Data behind its byte count, or up to the end of the record when there is no count. -/
def readData (hasLen : Bool) : Scan Failure Bytes := if hasLen then readV >>= take else rest

/-- A field that is sent only under a condition. -/
def readWhen {α : Type} (sent : Bool) (reader : Scan Failure α) (absent : α) : Scan Failure α :=
  if sent then reader else pure absent

/-- The fields of a STREAM frame, some of which its type says are there. -/
def readStream (code : Nat) : Scan Failure Frame := do
  let id ← readV
  let hasOff := hasBit code offBit
  let hasLen := hasBit code lenBit
  let off ← readWhen hasOff readV 0
  -- Without a length the data runs to the end of the record.
  let data ← readData hasLen
  -- The bound is on the end of the data, so an offset at the limit needs empty data.
  Scan.failIf (off + data.length > maxVarint)
    (.decodeError FE "stream offset beyond 2^62-1")
  return .stream id (some off) (some data) (some (hasBit code finBit)) (some hasOff) (some hasLen)

/-- The fields of a RESET_STREAM_AT frame. -/
def readResetStreamAt : Scan Failure Frame := do
  let id ← readV
  let code ← readV
  let finalSize ← readV
  let reliableSize ← readV
  -- What is delivered reliably is a front of the stream.
  Scan.failIf (reliableSize > finalSize) (.decodeError FE "reliable size above final size")
  return .resetStreamAt id code finalSize reliableSize

/-- The fields of a MAX_STREAMS frame, for one kind of stream. -/
def readMaxStreams (code : Nat) : Scan Failure Frame := do
  let max ← readV
  Scan.failIf (beyondStreams max) (.decodeError FE "MAX_STREAMS above 2^60")
  return .maxStreams (code = 0x12) max

/-- The fields of a STREAMS_BLOCKED frame, for one kind of stream. -/
def readStreamsBlocked (code : Nat) : Scan Failure Frame := do
  let limit ← readV
  Scan.failIf (beyondStreams limit) (.decodeError FE "STREAMS_BLOCKED above 2^60")
  return .streamsBlocked (code = 0x16) limit

/-- The fields of a CONNECTION_CLOSE frame, of the transport or of the application. -/
def readConnectionClose (code : Nat) : Scan Failure Frame := do
  let app := decide (code = 0x1D)
  let cause ← readV
  -- Only the transport names the type of the frame at fault.
  let frameType ← readWhen (!app) (some <$> readV) none
  let reason ← readData true
  return .connectionClose (some app) cause frameType (some reason)

/-- The fields of a DATAGRAM frame, whose type says whether it has a length. -/
def readDatagram (code : Nat) : Scan Failure Frame := do
  let hasLen := decide (code = 0x31)
  let data ← readData hasLen
  return .datagram (some data) (some hasLen)

/-- The fields of a QX_TRANSPORT_PARAMETERS frame, which are a block of parameters. -/
def readTransportParameters : Scan Failure Frame := do
  let block ← readData true
  -- The block is decoded on its own, so its failures do not depend on where it stands.
  let params ← Scan.lift (decodeTps block)
  return .qxTransportParameters (.params params)

/-- The fields of a QX_PING frame, a request or a response. -/
def readPing (code : Nat) : Scan Failure Frame := do
  let seq ← readV
  return .qxPing (some (code = 0x348C67529EF8C7BE)) seq

/-- The fields of a GOAWAY frame. -/
def readGoaway : Scan Failure Frame := do
  let maxBidi ← readV
  let maxUni ← readV
  let code ← readV
  -- Both counts are checked together, behind all three integers.
  Scan.failIf (beyondStreams maxBidi ∨ beyondStreams maxUni)
    (.decodeError FE "GOAWAY count above 2^60")
  return .goaway maxBidi maxUni code

/-- The fields of a PRIORITY_UPDATE frame, of which a byte has both urgency and flag. -/
def readPriorityUpdate : Scan Failure Frame := do
  let id ← readV
  let seq ← readV
  let b ← octet
  Scan.failIf (hasBit b.toNat 0x0F = true)
    (.decodeError FE "PRIORITY_UPDATE reserved bits set")
  return .priorityUpdate id seq (b.toNat >>> 5) (some (hasBit b.toNat 0x10))

/-- The fields of a PIPE_JOIN frame. -/
def readJoin : Scan Failure Frame := do
  let ln ← octet
  Scan.failIf (ln.toNat < 1 ∨ ln.toNat > Limits.maxLocatorBytes)
    (.decodeError FE "PIPE_JOIN locator length out of range")
  let locator ← take ln.toNat
  let pipe ← readV
  let byte ← octet
  let flags := byte.toNat
  -- The low two bits are the direction, and the remaining low bits are flags.
  let d := flags &&& 0x03
  Scan.failIf (d = 3) (.decodeError FE "PIPE_JOIN invalid direction")
  Scan.failIf (hasBit flags pipeJoinReservedMask = true)
    (.decodeError FE "PIPE_JOIN reserved flag set")
  -- The three directions that are left are all in the table.
  let direction ← Scan.lift (entry pipeDirections d)
  let fateGroup ← readV
  let priority ← readV
  -- The token is not verified here, since that needs the secret of the session.
  let token ← take 16
  return .pipeJoin {
    locator, pipe, direction := .named direction
    carrierBound := some (hasBit flags pipeJoinFlagCarrierBound)
    standby := some (hasBit flags pipeJoinFlagStandby)
    reservedFlags := none, fateGroup, priority := some priority, token }

/-- One entry is not above another in the order of pipe, then lane. -/
def AckEntry.notAbove (e last : AckEntry) : Prop :=
  e.pipe < last.pipe ∨ (e.pipe = last.pipe ∧ e.lane ≤ last.lane)

instance (e last : AckEntry) : Decidable (e.notAbove last) :=
  inferInstanceAs (Decidable (e.pipe < last.pipe ∨ (e.pipe = last.pipe ∧ e.lane ≤ last.lane)))

/-- The four integers of an entry of an acknowledgement. -/
def readEntry : Scan Failure AckEntry := do
  let pipe ← readV
  let lane ← readV
  let position ← readV
  let delay ← readV
  return ⟨pipe, lane, position, delay⟩

/-- So many entries, each above the one before it, the first above the last one read so far. -/
def readEntries : Nat → Option AckEntry → Scan Failure (List AckEntry)
  | 0, _ => pure []
  | count + 1, last => do
    -- The order is checked against the entry before, which the recursion carries.
    let e ← readEntry
    Scan.failIf (∃ before ∈ last, e.notAbove before)
      (.decodeError FE "PIPE_ACK entries not in strictly increasing (Pipe ID, Lane) order")
    let entries ← readEntries count (some e)
    return e :: entries

/-- The fields of a PIPE_ACK frame, whose entries are in ascending order. -/
def readAck : Scan Failure Frame := do
  let n ← readV
  Scan.failIf (n = 0) (.decodeError FE "PIPE_ACK without entries")
  -- The first entry has none before it.
  let entries ← readEntries n none
  return .pipeAck entries

/-- The fields of a PIPE_LANE frame. -/
def readLane : Scan Failure Frame := do
  let key ← take Limits.laneKeyBytes
  let pipe ← readV
  let lane ← readV
  return .pipeLane key pipe lane

/-- The fields of a PIPE_STATUS frame. -/
def readStatus : Scan Failure Frame := do
  let pipe ← readV
  let seq ← readV
  let st ← readV
  let priority ← readV
  Scan.failIf (pipeStatusValues.lookup st = none) (.decodeError FE "PIPE_STATUS invalid status")
  -- Behind the check the lookup cannot miss.
  let status ← Scan.lift (entry pipeStatusValues st)
  return .pipeStatus pipe seq (.named status) (some priority)

/-- Everything behind the type of a frame that is not padding. -/
def decodeFields (name : FrameName) (code : Nat) : Scan Failure Frame :=
  match name with
  | .stream => readStream code
  | .resetStream => do return .resetStream (← readV) (← readV) (← readV)
  | .resetStreamAt => readResetStreamAt
  | .stopSending => do return .stopSending (← readV) (← readV)
  | .maxData => do return .maxData (← readV)
  | .maxStreamData => do return .maxStreamData (← readV) (← readV)
  | .maxStreams => readMaxStreams code
  | .dataBlocked => do return .dataBlocked (← readV)
  | .streamDataBlocked => do return .streamDataBlocked (← readV) (← readV)
  | .streamsBlocked => readStreamsBlocked code
  | .connectionClose => readConnectionClose code
  | .datagram => readDatagram code
  | .qxTransportParameters => readTransportParameters
  | .qxPing => readPing code
  | .goaway => readGoaway
  | .priorityUpdate => readPriorityUpdate
  | .pipeJoin => readJoin
  | .pipeAck => readAck
  | .pipeLane => readLane
  | .pipePing => pure .pipePing
  | .pipeAbandon => do return .pipeAbandon (← readV) (← readV)
  | .pipeStatus => readStatus
  -- The names left over are prohibited, so the check of the type refuses them before.
  | name => Scan.fail (.decodeError FE s!"no decoder for {name.text}")

/-- The gates in effect: those of a set, or every gate there is. -/
abbrev Gates := Option (List TpName)

/-- Refuse a frame type none of whose gates is in effect. -/
def checkGate (row : FrameMeta) (enabled : Gates) : Except Failure Unit :=
  -- One gate in effect is enough, and a row without gates passes.
  raiseIf (row.gate.names ≠ [] ∧ ∃ names ∈ enabled, ¬ ∃ g ∈ row.gate.names, g ∈ names)
    (if row.name = .datagram then .decodeError PV "DATAGRAM without max_datagram_frame_size"
      else .decodeError FE s!"{row.name.text} not negotiated")

/-- Refuse a frame type that the registry does not have, prohibits, or holds behind a gate. -/
def checkType (code : Nat) (enabled : Gates) : Except Failure FrameMeta :=
  match frameByType code with
  | none => .error (.decodeError FE s!"unknown frame type 0x{hex code}")
  | some row => do
    -- A prohibited type is refused even if its gate were open.
    raiseIf (row.kind = .prohibited)
      (.decodeError FE s!"prohibited frame type {row.name.text}")
    checkGate row enabled
    return row

/-- Count zero bytes from a position on, and report the count and the position behind them. -/
def skipPadding (buf : Bytes) (pos stop n : Nat) : Except Failure (Nat × Nat) :=
  if pos < stop then do
    let byte ← item buf pos
    -- A run of zero bytes is one frame, which ends before the first other byte.
    if byte = 0 then skipPadding buf (pos + 1) stop (n + 1) else return (n, pos)
  else .ok (n, pos)
termination_by stop - pos

/-- Decode one frame from a position, before a stop, and report the position behind it. -/
def decodeFrame (buf : Bytes) (pos stop : Nat) (enabled : Gates := none)
    (maxDatagramFrameSize : Option Nat := none) : Except Failure (Frame × Nat) := do
  let start := pos
  let (code, pos, width) ← decodeVarint buf pos FE
  let minimal ← varintLen code
  -- A type in a wider form than its shortest is refused before it is looked up.
  raiseIf (width ≠ minimal) (.decodeError PV "frame type not minimally encoded")
  if code = 0x00 then do
    let (n, pos) ← skipPadding buf pos stop 1
    return (.padding (some n), pos)
  else do
    let row ← checkType code enabled
    let (f, pos) ← (decodeFields row.name code).run buf pos stop
    -- The three checks left are on the bytes that the whole frame occupies.
    raiseIf (row.name = .pipeJoin ∧ pos - start > Limits.maxJoinFrameBytes)
      (.decodeError FE "PIPE_JOIN longer than 64 bytes")
    raiseIf (pos > stop) truncatedFrame
    raiseIf (row.name = .datagram ∧ ∃ limit ∈ maxDatagramFrameSize, pos - start > limit)
      (.decodeError PV "DATAGRAM larger than max_datagram_frame_size")
    return (f, pos)

/-- Padding ends inside the window it starts in. -/
theorem skipPadding_inside {buf : Bytes} {pos stop n count next : Nat} (ordered : pos ≤ stop)
    (skipped : skipPadding buf pos stop n = .ok (count, next)) : pos ≤ next ∧ next ≤ stop := by
  -- The induction follows the loop, which only moves towards the stop.
  induction pos, n using skipPadding.induct stop with
  | case1 pos n below ih =>
    rw [skipPadding, if_pos below] at skipped
    obtain ⟨byte, -, skipped⟩ := bind_eq_ok.mp skipped
    split at skipped
    · obtain ⟨forward, short⟩ := ih below skipped
      exact ⟨by omega, short⟩
    · simp only [pure_ok, Except.ok.injEq, Prod.mk.injEq] at skipped
      omega
  | case2 pos n past =>
    rw [skipPadding, if_neg past] at skipped
    simp only [Except.ok.injEq, Prod.mk.injEq] at skipped
    omega

/-- A frame decoded up to the end of a buffer takes at least one byte, and only bytes of it. -/
theorem decodeFrame_forward {buf : Bytes} {pos next : Nat} {enabled : Gates}
    {limit : Option Nat} {f : Frame}
    (decoded : decodeFrame buf pos buf.length enabled limit = .ok (f, next)) :
    pos < next ∧ next ≤ buf.length := by
  -- The type takes at least one byte, and nothing behind it moves backwards.
  simp only [decodeFrame, bind_eq_ok] at decoded
  obtain ⟨⟨code, behind, width⟩, typed, minimal, -, -, -, decoded⟩ := decoded
  obtain ⟨forward, within⟩ := decodeVarint_forward typed
  split at decoded
  · obtain ⟨⟨n, after⟩, skipped, same⟩ := bind_eq_ok.mp decoded
    have inside := skipPadding_inside within skipped
    simp only [pure_ok, Except.ok.injEq, Prod.mk.injEq] at same
    omega
  · simp only [bind_eq_ok] at decoded
    obtain ⟨row, -, ⟨fields, after⟩, read, -, -, -, -, -, -, same⟩ := decoded
    have inside := (decodeFields row.name code).inside within (Nat.le_refl _) read
    simp only [pure_ok, Except.ok.injEq, Prod.mk.injEq] at same
    omega

/-- The loop of `decodeFrames` from a position on. -/
def decodeFramesFrom (payload : Bytes) (pos : Nat) (enabled : Gates)
    (maxDatagramFrameSize : Option Nat) : Except Failure (List Frame) :=
  if pos < payload.length then
    -- Every frame takes a byte, so what is left of the payload shrinks.
    match found : decodeFrame payload pos payload.length enabled maxDatagramFrameSize with
    | .error fault => .error fault
    | .ok (f, next) => do
      have _forward := decodeFrame_forward found
      let frames ← decodeFramesFrom payload next enabled maxDatagramFrameSize
      return f :: frames
  else .ok []
termination_by payload.length - pos

/-- The frames that make up a payload. -/
def decodeFrames (payload : Bytes) (enabled : Gates := none)
    (maxDatagramFrameSize : Option Nat := none) : Except Failure (List Frame) :=
  decodeFramesFrom payload 0 enabled maxDatagramFrameSize

end Zmux
