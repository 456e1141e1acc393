import Zmux.Codec.Frames

/-! The preamble at the beginning of a stream: typed values behind their total length. -/

namespace Zmux

open Wire

/-- Typed values one after the other, each behind its type and its length. -/
def encodeTlvs : List (Nat × Bytes) → Except Failure Bytes
  | [] => .ok []
  | (type, value) :: tlvs => do
    let head ← encodeVarint type
    let count ← encodeVarint value.length
    let tail ← encodeTlvs tlvs
    return head ++ count ++ value ++ tail

/-- A preamble in bytes: the length of its elements, and the elements. -/
def encodePreamble (tlvs : List (Nat × Bytes)) : Except Failure Bytes := do
  let body ← encodeTlvs tlvs
  let size ← encodeVarint body.length
  return size ++ body

/-- The priority that the opener of a stream asks for. -/
structure StreamPriority where
  urgency : Nat
  incremental : Bool
  deriving DecidableEq, Repr

/-- What a preamble says, where a value that was not sent is absent. -/
structure Preamble where
  ignored : List Nat
  priority : Option StreamPriority
  openInfo : Option Bytes
  pipeCarrier : Bool
  appTlvs : Option (List (Nat × Bytes))
  deriving DecidableEq, Repr

/-- What is known before the first value is read. -/
def Preamble.fresh : Preamble := ⟨[], none, none, false, none⟩

/-- The row of a type that is in use. -/
def knownTlv (type : Nat) : Option TlvMeta :=
  (preambleTlvs.filter fun row => row.status = .active).find? fun row => row.type = type

/-- Take in one value of a preamble, with the known types seen before it. -/
def acceptTlv (parsed : Preamble) (seen : List Nat) (type ln : Nat) (value : Bytes) :
    Except Failure (Preamble × List Nat) :=
  match knownTlv type with
  | some row => do
    raiseIf (type ∈ seen) (.decodeError PV s!"duplicate preamble TLV {row.name.text}")
    match row.name with
    | .priority => do
      -- Only a single byte is looked into.
      raiseIf (ln ≠ 1) (.decodeError PV "invalid PRIORITY TLV")
      let byte ← item value 0
      raiseIf (hasBit byte.toNat 0x0F = true) (.decodeError PV "invalid PRIORITY TLV")
      let priority := ⟨byte.toNat >>> 5, hasBit byte.toNat 0x10⟩
      return ({ parsed with priority := some priority }, type :: seen)
    | .openInfo => return ({ parsed with openInfo := some value }, type :: seen)
    | .pipeCarrier => do
      raiseIf (ln ≠ 0) (.decodeError PV "invalid PIPE_CARRIER TLV")
      return ({ parsed with pipeCarrier := true }, type :: seen)
    -- No other name is looked for, so its value is dropped.
    | .deadline => return (parsed, type :: seen)
  | none =>
    -- A reserved type inside the range of the applications is not delivered to them.
    if appTlvFirst ≤ type ∧ type ≤ appTlvLast ∧ ¬ isGreaseTlv type then
      .ok ({ parsed with appTlvs := some (parsed.appTlvs.getD [] ++ [(type, value)]) }, seen)
    else .ok ({ parsed with ignored := parsed.ignored ++ [type] }, seen)

/-- The type, the length and the value at a position before a stop, and the position behind them. -/
def tlvAt (data : Bytes) (pos stop : Nat) : Except Failure (Nat × Nat × Bytes × Nat) := do
  let (type, pos, _) ← decodeVarint data pos PV
  -- Both integers are decoded from all the data, and only then compared with the stop.
  raiseIf (pos ≥ stop) (.decodeError PV "truncated preamble TLV")
  let (ln, pos, _) ← decodeVarint data pos PV
  raiseIf (pos > stop ∨ pos + ln > stop) (.decodeError PV "preamble TLV overruns preamble")
  return (type, ln, slice data pos (pos + ln), pos + ln)

/-- A value at a position takes at least one byte, and none behind the stop. -/
theorem tlvAt_forward {data value : Bytes} {pos stop type ln next : Nat}
    (found : tlvAt data pos stop = .ok (type, ln, value, next)) : pos < next ∧ next ≤ stop := by
  -- The type takes at least one byte, and the last check is on the position behind the value.
  simp only [tlvAt, bind_eq_ok, raiseIf_eq_ok, pure_ok, Except.ok.injEq, Prod.mk.injEq] at found
  rcases found with ⟨⟨_, first, _⟩, typed, _, -, ⟨_, second, _⟩, sized, _, within, -, -, -, rfl⟩
  have forward := (decodeVarint_forward typed).1
  have further := (decodeVarint_forward sized).1
  simp only at *
  omega

/-- The loop of `decodePreamble` over the values from a position on. -/
def decodeTlvsFrom (data : Bytes) (pos stop : Nat) (parsed : Preamble) (seen : List Nat) :
    Except Failure Preamble :=
  if pos < stop then
    match found : tlvAt data pos stop with
    | .error fault => .error fault
    | .ok (type, ln, value, next) => do
      have _forward := tlvAt_forward found
      let (parsed, seen) ← acceptTlv parsed seen type ln value
      decodeTlvsFrom data next stop parsed seen
  else .ok parsed
termination_by stop - pos

/-- The length that a preamble begins with, where an integer that is cut off has its own reason. -/
def preambleLength (data : Bytes) : Except Failure (Nat × Nat × Nat) :=
  match decodeVarint data 0 PV with
  -- Only the codec's own error is caught.
  | .error (.decodeError ..) => .error (.decodeError PV "preamble length split across frames")
  | outcome => outcome

/-- The preamble that the first data of a stream begins with, and its length. -/
def decodePreamble (firstFrameData : Bytes) (limit : Int) : Except Failure (Preamble × Nat) := do
  raiseIf (firstFrameData = []) (.decodeError PV "preamble missing")
  let (bodyLen, pos, _) ← preambleLength firstFrameData
  let total := pos + bodyLen
  raiseIf ((total : Int) > limit) (.decodeError PV "preamble exceeds zmux_preamble limit")
  raiseIf (total > firstFrameData.length) (.decodeError PV "preamble split across frames")
  let parsed ← decodeTlvsFrom firstFrameData pos total .fresh []
  return (parsed, total)

/-- The prefix of a datagram: of the session, or of a stream and one of its contexts. -/
def encodeFlowPrefix (streamId : Option Nat := none) (contextId : Nat := 0) :
    Except Failure Bytes :=
  match streamId with
  | none => encodeVarint 0
  | some id => do
    -- Zero stands for the session, so the streams count from one.
    let flow ← encodeVarint (id + 1 : Nat)
    let context ← encodeVarint contextId
    return flow ++ context

/-- The stream and the context of a datagram, both absent for the session, and its payload. -/
def decodeFlowPrefix (data : Bytes) : Except Failure (Option Nat × Option Nat × Bytes) := do
  let (flow, pos, _) ← decodeVarint data 0 PV
  if flow = 0 then return (none, none, data.drop pos)
  else do
    let (ctx, pos, _) ← decodeVarint data pos PV
    return (some (flow - 1), some ctx, data.drop pos)

end Zmux
