import Zmux.Codec.Registry

/-! Transport-parameter blocks: encoding, decoding, and the checks that need only the block. -/

namespace Zmux

open Wire

/-- A parameter is named by its number or by its registered name. -/
inductive TpId where
  | num (id : Nat)
  | name (name : TpName)
  deriving DecidableEq, Repr

/-- The value of a parameter: absent, an integer, one of three records, or bytes. -/
inductive TpValue where
  | none
  | varint (value : Nat)
  | role (role : Role) (nonce : Option Nat)
  | multipath (flags : Nat) (nonce locator : Bytes)
  | lanes (maxLanes : Nat) (laneKey : Bytes)
  | bytes (value : Bytes)
  deriving DecidableEq, Repr

/-- What a parameter carries: the bytes of its value as they are, or a value to encode. -/
inductive TpContent where
  | raw (bytes : Bytes)
  | value (value : TpValue)
  deriving DecidableEq, Repr

/-- A parameter as it is given: how it is called, and what it has. -/
structure Param where
  id : TpId
  content : TpContent
  deriving DecidableEq, Repr

/-- A value used where an integer is needed. -/
def TpValue.int : TpValue → Except Failure Nat
  | varint value => .ok value
  | _ => .error .typeError

/-- A value used where bytes are needed, absence standing for none. -/
def TpValue.asBytes : TpValue → Except Failure Bytes
  | none => .ok []
  | bytes value => .ok value
  | _ => .error .typeError

/-- A value looked up by a key that is not there, or that cannot be looked up in at all. -/
def TpValue.missing {α : Type} : TpValue → Except Failure α
  | role .. | multipath .. | lanes .. => .error .keyError
  | _ => .error .typeError

/-- The encoding of a value in as few bytes as it takes. -/
def v (value : Nat) : Except Failure Bytes := encodeVarint value

/-- A lane key, if it has the length of one. -/
def laneKey (key : Bytes) : Except Failure Bytes := do
  raiseIf (key.length ≠ Limits.laneKeyBytes) (.valueError "a Lane Key is 16 bytes")
  return key

/-- A role, with a nonce where the role is not chosen yet. -/
def encodeTpRole (value : TpValue) : Except Failure Bytes :=
  match value with
  | .role role nonce => do
    let code ← entry [(Role.initiator, 0), (.responder, 1), (.auto, 2)] role
    let out ← v code
    if role = .auto then
      -- Only an undecided role carries a nonce, which settles who initiates.
      match nonce with
      | some nonce => do
        let tail ← toBytes nonce 8
        return out ++ tail
      | none => .error .keyError
    else return out
  -- The lookup of the role fails before anything is encoded.
  | other => other.missing

/-- The parts of a multipath value, one after the other. -/
def encodeTpMultipath (value : TpValue) : Except Failure Bytes :=
  match value with
  | .multipath flags nonce locator => do
    raiseIf (nonce.length ≠ 16) (.valueError "multipath nonce must be 16 bytes")
    let flags ← oneByte flags
    -- The byte count of the locator is one byte, so a longer locator cannot be sent.
    let count ← oneByte locator.length
    return flags ++ nonce ++ count ++ locator
  | other => other.missing

/-- A number of lanes and the key of them. -/
def encodeTpLanes (value : TpValue) : Except Failure Bytes :=
  match value with
  | .lanes maxLanes key => do
    let count ← v maxLanes
    let key ← laneKey key
    return count ++ key
  | other => other.missing

/-- The registry row that a parameter is encoded by, if it has one. -/
def TpId.row : TpId → Except Failure (Option TpMeta)
  | .name registered => (tpByName registered).map some
  -- A number need not be registered, and then its value is sent as bytes.
  | .num id => .ok (tpById id)

/-- A value in the format of its parameter, or bytes for one that has none. -/
def encodeTpValue (id : TpId) (value : TpValue) : Except Failure Bytes := do
  let row ← id.row
  match row with
  | none => value.asBytes
  | some row =>
    match row.format with
    | some .varint => do
      let number ← value.int
      v number
    | some .empty => return []
    | some .role => encodeTpRole value
    | some .multipath => encodeTpMultipath value
    | some .lanes => encodeTpLanes value
    -- A prohibited parameter has no format, and is sent as the bytes it is given.
    | some .opaqueBytes | none => value.asBytes

/-- The number a parameter is sent under. -/
def TpId.number : TpId → Except Failure Nat
  | .name registered => (tpByName registered).map TpMeta.id
  | .num id => .ok id

/-- The bytes of a parameter behind its number and its byte count. -/
def encodeTpContent (param : Param) : Except Failure Bytes :=
  match param.content with
  | .raw bytes => .ok bytes
  | .value value => encodeTpValue param.id value

/-- A parameter in bytes: its number, its length, and what it has. -/
def encodeTp (param : Param) : Except Failure Bytes := do
  let num ← param.id.number
  let val ← encodeTpContent param
  let head ← v num
  let count ← v val.length
  return head ++ count ++ val

/-- Parameters in bytes, one after the other. -/
def encodeTps : List Param → Except Failure Bytes
  | [] => .ok []
  | param :: params => do
    let out ← encodeTp param
    let rest ← encodeTps params
    return out ++ rest

/-- A value that is one integer. -/
def decodeTpVarint (name : TpName) (raw : Bytes) : Except Failure TpValue := do
  let (value, pos, _) ← decodeVarint raw 0 TPE
  -- The integer must fill the value, so no bytes may follow it.
  raiseIf (pos ≠ raw.length) (.decodeError TPE s!"{name.text}: trailing bytes")
  return .varint value

/-- A value that is nothing. -/
def decodeTpEmpty (name : TpName) (raw : Bytes) : Except Failure TpValue := do
  raiseIf (raw ≠ []) (.decodeError TPE s!"{name.text}: value must be empty")
  return .none

/-- A value that is a role, with a nonce where the role is not chosen yet. -/
def decodeTpRole (raw : Bytes) : Except Failure TpValue := do
  let (code, pos, _) ← decodeVarint raw 0 TPE
  raiseIf (code ∉ [0, 1, 2]) (.decodeError TPE "zmux_role: invalid role")
  -- The lookup cannot miss behind the check of the code.
  let role ← entry roleValues code
  if role = .auto then do
    -- The nonce is what follows the code, and must be exactly eight bytes.
    raiseIf (raw.length - pos ≠ 8) (.decodeError TPE "zmux_role: auto requires a 64-bit nonce")
    return .role role (some (foldBytes 0 (raw.drop pos)))
  else do
    raiseIf (pos ≠ raw.length) (.decodeError TPE "zmux_role: trailing bytes")
    return .role role none

/-- A value that is flags, a nonce and a locator. -/
def decodeTpMultipath (raw : Bytes) : Except Failure TpValue := do
  raiseIf (raw.length < 18) (.decodeError TPE "zmux_multipath: too short")
  -- The length check makes both elements exist.
  let flags ← item raw 0
  let nonce := slice raw 1 17
  let ln ← item raw 17
  raiseIf (ln.toNat > Limits.maxLocatorBytes)
    (.decodeError TPE "zmux_multipath: locator longer than 16 bytes")
  raiseIf (raw.length ≠ 18 + ln.toNat) (.decodeError TPE "zmux_multipath: length mismatch")
  return .multipath flags.toNat nonce (raw.drop 18)

/-- A value that is a number of lanes and their key. -/
def decodeTpLanes (raw : Bytes) : Except Failure TpValue := do
  let (n, pos, _) ← decodeVarint raw 0 TPE
  -- The byte count is checked before the number of lanes.
  raiseIf (raw.length - pos ≠ Limits.laneKeyBytes)
    (.decodeError TPE "zmux_max_lanes: Lane Key is not 16 bytes")
  raiseIf (n = 0) (.decodeError TPE "zmux_max_lanes: Max Lanes is 0")
  return .lanes n (raw.drop pos)

/-- A parameter without a registered format keeps its number and its bytes. -/
def decodeTpValue (num : Nat) (raw : Bytes) : Except Failure Param :=
  let kept : Param := ⟨.num num, .raw raw⟩
  match tpById num with
  | none => .ok kept
  | some row =>
    let named (value : TpValue) : Param := ⟨.name row.name, .value value⟩
    -- The loop refuses prohibited parameters before their values are looked at.
    if row.scope = .prohibited then .ok kept
    else match row.format with
      | none | some .opaqueBytes => .ok kept
      | some .varint => (decodeTpVarint row.name raw).map named
      | some .empty => (decodeTpEmpty row.name raw).map named
      | some .role => (decodeTpRole raw).map named
      | some .multipath => (decodeTpMultipath raw).map named
      | some .lanes => (decodeTpLanes raw).map named

/-- The values of parameters by their names. -/
abbrev TpDict := TpName → Option TpValue

/-- The values of the named parameters, a later one replacing an earlier one of the same name. -/
def tpDict (params : List Param) : TpDict :=
  params.foldl (fun dict param =>
    match param.id with
    | .num _ => dict
    | .name name =>
      -- A registered name always comes with a value once it has been decoded.
      let value := match param.content with
        | .raw _ => TpValue.none
        | .value value => value
      fun key => if key = name then some value else dict key) fun _ => none

/-- Refuse a parameter that is present with an integer value that fails a test. -/
def refuseValue (value : Option TpValue) (refused : Nat → Bool) (reason : String) :
    Except Failure Unit :=
  match value with
  | none => .ok ()
  | some value => do
    let number ← value.int
    raiseIf (refused number = true) (.decodeError TPE reason)

/-- The checks of a preamble that is present. -/
def validateTpPreamble (d : TpDict) : Except Failure Unit :=
  match d .zmuxPreamble with
  | none => .ok ()
  | some preamble => do
    raiseIf (d .resetStreamAt = none)
      (.decodeError TPE "zmux_preamble requires reset_stream_at")
    let limit ← preamble.int
    raiseIf (limit < 1) (.decodeError TPE "zmux_preamble below 1")
    -- Absent limits count with their defaults.
    let ownMrs ← ((d .maxRecordSize).getD (.varint Limits.defaultMaxRecordSize)).int
    raiseIf (limit > ownMrs - Limits.maxPreambleTpOverhead)
      (.decodeError TPE "zmux_preamble above max_record_size - 32")
    let bidiRemote ← ((d .initialMaxStreamDataBidiRemote).getD (.varint 0)).int
    raiseIf (limit > bidiRemote)
      (.decodeError TPE "zmux_preamble above initial_max_stream_data_bidi_remote")
    let uni ← ((d .initialMaxStreamDataUni).getD (.varint 0)).int
    raiseIf (limit > uni) (.decodeError TPE "zmux_preamble above initial_max_stream_data_uni")

/-- Refuse a companion parameter without either of the parameters it serves. -/
def requireAck (d : TpDict) (name : TpName) : Except Failure Unit :=
  raiseIf (d name ≠ none ∧ d .zmuxMultipath = none ∧ d .zmuxPipeAck = none)
    (.decodeError TPE s!"{name.text} requires zmux_multipath or zmux_pipe_ack")

/-- The values of parameters, if each is in its range and none lacks another. -/
def validateTps (params : List Param) : Except Failure TpDict := do
  let d := tpDict params
  -- The checks are made in this order, so the first violation decides the reason.
  refuseValue (d .maxRecordSize) (· < Limits.defaultMaxRecordSize) "max_record_size below 16382"
  refuseValue (d .initialMaxStreamsBidi) (· > 1 <<< 60) "initial_max_streams_bidi above 2^60"
  refuseValue (d .initialMaxStreamsUni) (· > 1 <<< 60) "initial_max_streams_uni above 2^60"
  validateTpPreamble d
  requireAck d .zmuxAckThreshold
  requireAck d .zmuxMaxAckDelay
  requireAck d .zmuxMaxLanes
  raiseIf (d .zmuxResume ≠ none ∧ d .zmuxMultipath = none)
    (.decodeError TPE "zmux_resume requires zmux_multipath")
  refuseValue (d .zmuxAckThreshold) (· < 1024) "zmux_ack_threshold out of range"
  refuseValue (d .zmuxMaxAckDelay) (· ≥ 1 <<< 14) "zmux_max_ack_delay out of range"
  refuseValue (d .zmuxResume) (· < 1) "zmux_resume out of range"
  return d

/-- A number in lower-case hexadecimal digits. -/
def hex (value : Nat) : String := String.ofList (Nat.toDigits 16 value)

/-- The parameter at a position: its number, its value's bytes, and the position behind it. -/
def readTp (buf : Bytes) (pos : Nat) : Except Failure (Nat × Bytes × Nat) := do
  let (num, pos, _) ← decodeVarint buf pos TPE
  let (ln, pos, _) ← decodeVarint buf pos TPE
  -- The value must lie inside the block as a whole.
  raiseIf (pos + ln > buf.length) (.decodeError TPE "truncated transport parameter")
  return (num, slice buf pos (pos + ln), pos + ln)

/-- A parameter read moves forward. -/
theorem readTp_forward {buf raw : Bytes} {pos num next : Nat}
    (read : readTp buf pos = .ok (num, raw, next)) : pos < next ∧ next ≤ buf.length := by
  -- Its number and its length each take at least one byte.
  simp only [readTp, bind_eq_ok, raiseIf_eq_ok, pure_ok, Except.ok.injEq, Prod.mk.injEq] at read
  obtain ⟨⟨_, middle, _⟩, first, ⟨_, start, _⟩, second, -, whole, -, -, rfl⟩ := read
  have front := decodeVarint_forward first
  have back := decodeVarint_forward second
  simp only at front back whole ⊢
  omega

/-- Refuse a parameter that must not appear. -/
def refuseProhibited (num : Nat) : Except Failure Unit :=
  match tpById num with
  | some row => raiseIf (row.scope = .prohibited)
      (.decodeError TPE s!"prohibited transport parameter {row.name.text}")
  | none => .ok ()

/-- The loop of `decodeTps` from a position, with the parameters and numbers met before it. -/
def decodeTpsFrom (buf : Bytes) (pos : Nat) (out : List Param) (seen : List Nat) :
    Except Failure (List Param) :=
  if pos < buf.length then
    match found : readTp buf pos with
    | .error fault => .error fault
    | .ok (num, raw, next) => do
      have _forward := readTp_forward found
      -- A repeated number is refused before its value is decoded.
      raiseIf (num ∈ seen) (.decodeError TPE s!"duplicate transport parameter 0x{hex num}")
      refuseProhibited num
      let param ← decodeTpValue num raw
      decodeTpsFrom buf next (out ++ [param]) (num :: seen)
  else .ok out
termination_by buf.length - pos

/-- Decode and validate a transport-parameter block. -/
def decodeTps (buf : Bytes) : Except Failure (List Param) := do
  let out ← decodeTpsFrom buf 0 [] []
  let _ ← validateTps out
  return out

end Zmux
