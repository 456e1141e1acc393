import Zmux.Codec.Varint

/-! The codepoint registry: frame types, transport parameters, and the limits the codec checks. -/

namespace Zmux

/-- The frame types of the registry, prohibited ones included. -/
inductive FrameName where
  | padding
  | ping
  | ack
  | resetStream
  | stopSending
  | crypto
  | newToken
  | stream
  | maxData
  | maxStreamData
  | maxStreams
  | dataBlocked
  | streamDataBlocked
  | streamsBlocked
  | newConnectionId
  | retireConnectionId
  | pathChallenge
  | pathResponse
  | connectionClose
  | handshakeDone
  | resetStreamAt
  | datagram
  | qxTransportParameters
  | qxPing
  | goaway
  | priorityUpdate
  | pipeJoin
  | pipeAck
  | pipeLane
  | pipePing
  | pipeAbandon
  | pipeStatus
  deriving DecidableEq, Repr

/-- The name of a frame type as it appears in error reasons. -/
def FrameName.text : FrameName → String
  | padding => "PADDING"
  | ping => "PING"
  | ack => "ACK"
  | resetStream => "RESET_STREAM"
  | stopSending => "STOP_SENDING"
  | crypto => "CRYPTO"
  | newToken => "NEW_TOKEN"
  | stream => "STREAM"
  | maxData => "MAX_DATA"
  | maxStreamData => "MAX_STREAM_DATA"
  | maxStreams => "MAX_STREAMS"
  | dataBlocked => "DATA_BLOCKED"
  | streamDataBlocked => "STREAM_DATA_BLOCKED"
  | streamsBlocked => "STREAMS_BLOCKED"
  | newConnectionId => "NEW_CONNECTION_ID"
  | retireConnectionId => "RETIRE_CONNECTION_ID"
  | pathChallenge => "PATH_CHALLENGE"
  | pathResponse => "PATH_RESPONSE"
  | connectionClose => "CONNECTION_CLOSE"
  | handshakeDone => "HANDSHAKE_DONE"
  | resetStreamAt => "RESET_STREAM_AT"
  | datagram => "DATAGRAM"
  | qxTransportParameters => "QX_TRANSPORT_PARAMETERS"
  | qxPing => "QX_PING"
  | goaway => "GOAWAY"
  | priorityUpdate => "PRIORITY_UPDATE"
  | pipeJoin => "PIPE_JOIN"
  | pipeAck => "PIPE_ACK"
  | pipeLane => "PIPE_LANE"
  | pipePing => "PIPE_PING"
  | pipeAbandon => "PIPE_ABANDON"
  | pipeStatus => "PIPE_STATUS"

/-- The transport parameters of the registry, prohibited ones included. -/
inductive TpName where
  | originalDestinationConnectionId
  | maxIdleTimeout
  | statelessResetToken
  | maxUdpPayloadSize
  | initialMaxData
  | initialMaxStreamDataBidiLocal
  | initialMaxStreamDataBidiRemote
  | initialMaxStreamDataUni
  | initialMaxStreamsBidi
  | initialMaxStreamsUni
  | ackDelayExponent
  | maxAckDelay
  | disableActiveMigration
  | preferredAddress
  | activeConnectionIdLimit
  | initialSourceConnectionId
  | retrySourceConnectionId
  | resetStreamAt
  | maxDatagramFrameSize
  | maxRecordSize
  | zmuxRole
  | zmuxGoaway
  | zmuxPreamble
  | zmuxPriority
  | zmuxDatagramFlows
  | zmuxCarrierDatagrams
  | zmuxMultipath
  | zmuxPipeAck
  | zmuxAckThreshold
  | zmuxMaxAckDelay
  | zmuxMaxLanes
  | zmuxResume
  deriving DecidableEq, Repr

/-- The name of a transport parameter as it appears in error reasons. -/
def TpName.text : TpName → String
  | originalDestinationConnectionId => "original_destination_connection_id"
  | maxIdleTimeout => "max_idle_timeout"
  | statelessResetToken => "stateless_reset_token"
  | maxUdpPayloadSize => "max_udp_payload_size"
  | initialMaxData => "initial_max_data"
  | initialMaxStreamDataBidiLocal => "initial_max_stream_data_bidi_local"
  | initialMaxStreamDataBidiRemote => "initial_max_stream_data_bidi_remote"
  | initialMaxStreamDataUni => "initial_max_stream_data_uni"
  | initialMaxStreamsBidi => "initial_max_streams_bidi"
  | initialMaxStreamsUni => "initial_max_streams_uni"
  | ackDelayExponent => "ack_delay_exponent"
  | maxAckDelay => "max_ack_delay"
  | disableActiveMigration => "disable_active_migration"
  | preferredAddress => "preferred_address"
  | activeConnectionIdLimit => "active_connection_id_limit"
  | initialSourceConnectionId => "initial_source_connection_id"
  | retrySourceConnectionId => "retry_source_connection_id"
  | resetStreamAt => "reset_stream_at"
  | maxDatagramFrameSize => "max_datagram_frame_size"
  | maxRecordSize => "max_record_size"
  | zmuxRole => "zmux_role"
  | zmuxGoaway => "zmux_goaway"
  | zmuxPreamble => "zmux_preamble"
  | zmuxPriority => "zmux_priority"
  | zmuxDatagramFlows => "zmux_datagram_flows"
  | zmuxCarrierDatagrams => "zmux_carrier_datagrams"
  | zmuxMultipath => "zmux_multipath"
  | zmuxPipeAck => "zmux_pipe_ack"
  | zmuxAckThreshold => "zmux_ack_threshold"
  | zmuxMaxAckDelay => "zmux_max_ack_delay"
  | zmuxMaxLanes => "zmux_max_lanes"
  | zmuxResume => "zmux_resume"

/-- Where a frame type comes from, or that it must not appear. -/
inductive FrameKind where
  | core
  | qmux
  | quicExt
  | zmux
  | prohibited
  deriving DecidableEq, Repr

/-- The negotiation gate of a frame type: none, one parameter, or any of several. -/
inductive Gate where
  | none
  | one (name : TpName)
  | any (names : List TpName)
  deriving DecidableEq, Repr

/-- The parameters of a gate, one of which must be in effect. -/
def Gate.names : Gate → List TpName
  | none => []
  | one name => [name]
  | any names => names

/-- One range of frame types. -/
structure FrameMeta where
  name : FrameName
  first : Nat
  last : Nat
  kind : FrameKind
  gate : Gate
  deriving DecidableEq, Repr

/-- The rows of all frames, each with the range of its numbers, its status and its gates. -/
def frameTypes : List FrameMeta := [
  ⟨.padding, 0x00, 0x00, .core, .none⟩,
  ⟨.ping, 0x01, 0x01, .prohibited, .none⟩,
  ⟨.ack, 0x02, 0x03, .prohibited, .none⟩,
  ⟨.resetStream, 0x04, 0x04, .core, .none⟩,
  ⟨.stopSending, 0x05, 0x05, .core, .none⟩,
  ⟨.crypto, 0x06, 0x06, .prohibited, .none⟩,
  ⟨.newToken, 0x07, 0x07, .prohibited, .none⟩,
  ⟨.stream, 0x08, 0x0F, .core, .none⟩,
  ⟨.maxData, 0x10, 0x10, .core, .none⟩,
  ⟨.maxStreamData, 0x11, 0x11, .core, .none⟩,
  ⟨.maxStreams, 0x12, 0x13, .core, .none⟩,
  ⟨.dataBlocked, 0x14, 0x14, .core, .none⟩,
  ⟨.streamDataBlocked, 0x15, 0x15, .core, .none⟩,
  ⟨.streamsBlocked, 0x16, 0x17, .core, .none⟩,
  ⟨.newConnectionId, 0x18, 0x18, .prohibited, .none⟩,
  ⟨.retireConnectionId, 0x19, 0x19, .prohibited, .none⟩,
  ⟨.pathChallenge, 0x1A, 0x1A, .prohibited, .none⟩,
  ⟨.pathResponse, 0x1B, 0x1B, .prohibited, .none⟩,
  ⟨.connectionClose, 0x1C, 0x1D, .core, .none⟩,
  ⟨.handshakeDone, 0x1E, 0x1E, .prohibited, .none⟩,
  ⟨.resetStreamAt, 0x24, 0x24, .quicExt, .one .resetStreamAt⟩,
  ⟨.datagram, 0x30, 0x31, .quicExt, .one .maxDatagramFrameSize⟩,
  ⟨.qxTransportParameters, 0x3F5153300D0A0D0A, 0x3F5153300D0A0D0A, .qmux, .none⟩,
  ⟨.qxPing, 0x348C67529EF8C7BD, 0x348C67529EF8C7BE, .qmux, .none⟩,
  ⟨.goaway, 0x1911F43E, 0x1911F43E, .zmux, .one .zmuxGoaway⟩,
  ⟨.priorityUpdate, 0x073D08CF, 0x073D08CF, .zmux, .one .zmuxPriority⟩,
  ⟨.pipeJoin, 0x1A24DE36, 0x1A24DE36, .zmux, .one .zmuxMultipath⟩,
  ⟨.pipeAck, 0x0B2B3EEB, 0x0B2B3EEB, .zmux, .any [.zmuxMultipath, .zmuxPipeAck]⟩,
  ⟨.pipeLane, 0x3A05A1C9, 0x3A05A1C9, .zmux, .one .zmuxMaxLanes⟩,
  ⟨.pipePing, 0x269B43E6, 0x269B43E6, .zmux, .one .zmuxMultipath⟩,
  ⟨.pipeAbandon, 0x23B35B74, 0x23B35B74, .zmux, .one .zmuxMultipath⟩,
  ⟨.pipeStatus, 0x227B2811, 0x227B2811, .zmux, .one .zmuxMultipath⟩]

/-- How the value of a transport parameter is laid out. -/
inductive TpFormat where
  | varint
  | empty
  | role
  | multipath
  | lanes
  | opaqueBytes
  deriving DecidableEq, Repr

/-- Where a transport parameter comes from, or that it must not appear. -/
inductive TpScope where
  | qmux
  | zmux
  | prohibited
  deriving DecidableEq, Repr

/-- One transport parameter, with a format unless it is prohibited. -/
structure TpMeta where
  name : TpName
  id : Nat
  scope : TpScope
  format : Option TpFormat
  deriving DecidableEq, Repr

/-- The rows of all parameters, each with its number, its status and its format. -/
def transportParameters : List TpMeta := [
  ⟨.originalDestinationConnectionId, 0x00, .prohibited, none⟩,
  ⟨.maxIdleTimeout, 0x01, .qmux, some .varint⟩,
  ⟨.statelessResetToken, 0x02, .prohibited, none⟩,
  ⟨.maxUdpPayloadSize, 0x03, .prohibited, none⟩,
  ⟨.initialMaxData, 0x04, .qmux, some .varint⟩,
  ⟨.initialMaxStreamDataBidiLocal, 0x05, .qmux, some .varint⟩,
  ⟨.initialMaxStreamDataBidiRemote, 0x06, .qmux, some .varint⟩,
  ⟨.initialMaxStreamDataUni, 0x07, .qmux, some .varint⟩,
  ⟨.initialMaxStreamsBidi, 0x08, .qmux, some .varint⟩,
  ⟨.initialMaxStreamsUni, 0x09, .qmux, some .varint⟩,
  ⟨.ackDelayExponent, 0x0A, .prohibited, none⟩,
  ⟨.maxAckDelay, 0x0B, .prohibited, none⟩,
  ⟨.disableActiveMigration, 0x0C, .prohibited, none⟩,
  ⟨.preferredAddress, 0x0D, .prohibited, none⟩,
  ⟨.activeConnectionIdLimit, 0x0E, .prohibited, none⟩,
  ⟨.initialSourceConnectionId, 0x0F, .prohibited, none⟩,
  ⟨.retrySourceConnectionId, 0x10, .prohibited, none⟩,
  ⟨.resetStreamAt, 0x1D, .qmux, some .empty⟩,
  ⟨.maxDatagramFrameSize, 0x20, .qmux, some .varint⟩,
  ⟨.maxRecordSize, 0x0571C59429CD0845, .qmux, some .varint⟩,
  ⟨.zmuxRole, 0x17240207, .zmux, some .role⟩,
  ⟨.zmuxGoaway, 0x04528A5F, .zmux, some .empty⟩,
  ⟨.zmuxPreamble, 0x0439E07A, .zmux, some .varint⟩,
  ⟨.zmuxPriority, 0x31E7139D, .zmux, some .empty⟩,
  ⟨.zmuxDatagramFlows, 0x0AF391ED, .zmux, some .empty⟩,
  ⟨.zmuxCarrierDatagrams, 0x3D274C5F, .zmux, some .empty⟩,
  ⟨.zmuxMultipath, 0x30DC2978, .zmux, some .multipath⟩,
  ⟨.zmuxPipeAck, 0x34B47621, .zmux, some .empty⟩,
  ⟨.zmuxAckThreshold, 0x2762C7E5, .zmux, some .varint⟩,
  ⟨.zmuxMaxAckDelay, 0x17FA1ED6, .zmux, some .varint⟩,
  ⟨.zmuxMaxLanes, 0x27856EF0, .zmux, some .lanes⟩,
  ⟨.zmuxResume, 0x0D5778CE, .zmux, some .varint⟩]

/-- The row of a frame by its name. -/
def frameByName (name : FrameName) : Except Failure FrameMeta :=
  -- The registry lists every name, so the lookup by name never misses.
  match frameTypes.find? (fun row => row.name = name) with
  | some row => .ok row
  | none => .error .keyError

/-- The row of a frame by the number it is sent with. -/
def frameByType (code : Nat) : Option FrameMeta :=
  -- The ranges are disjoint, so the first row that holds the number is the only one.
  frameTypes.find? fun row => row.first ≤ code ∧ code ≤ row.last

/-- The row of a parameter by its name. -/
def tpByName (name : TpName) : Except Failure TpMeta :=
  match transportParameters.find? (fun row => row.name = name) with
  | some row => .ok row
  | none => .error .keyError

/-- The row of a parameter by its number. -/
def tpById (id : Nat) : Option TpMeta :=
  -- A number without a row belongs to a parameter that this registry does not know.
  transportParameters.find? fun row => row.id = id

/-- The numbers reserved for parameters that a receiver must ignore. -/
def greaseTp (n : Nat) : Nat := 31 * n + 27

/-- A number that is reserved for parameters that must be ignored. -/
def isGreaseTp (v : Nat) : Prop := v % 31 = 27

instance (v : Nat) : Decidable (isGreaseTp v) := inferInstanceAs (Decidable (v % 31 = 27))

/-- The name of a transport error in the registry. -/
def TransportError.text : TransportError → String
  | noError => "NO_ERROR"
  | internalError => "INTERNAL_ERROR"
  | connectionRefused => "CONNECTION_REFUSED"
  | flowControlError => "FLOW_CONTROL_ERROR"
  | streamLimitError => "STREAM_LIMIT_ERROR"
  | streamStateError => "STREAM_STATE_ERROR"
  | finalSizeError => "FINAL_SIZE_ERROR"
  | frameEncodingError => "FRAME_ENCODING_ERROR"
  | transportParameterError => "TRANSPORT_PARAMETER_ERROR"
  | protocolViolation => "PROTOCOL_VIOLATION"
  | noViablePath => "NO_VIABLE_PATH"
  | zmuxExcessiveLoad => "ZMUX_EXCESSIVE_LOAD"
  | zmuxRoleConflict => "ZMUX_ROLE_CONFLICT"
  | zmuxResumeTimeout => "ZMUX_RESUME_TIMEOUT"
  | zmuxResumeFailed => "ZMUX_RESUME_FAILED"
  | zmuxPipeFailed => "ZMUX_PIPE_FAILED"
  | zmuxPipeResourceLimit => "ZMUX_PIPE_RESOURCE_LIMIT"
  | zmuxPipeAuthFailed => "ZMUX_PIPE_AUTH_FAILED"
  | zmuxIdleTimeout => "ZMUX_IDLE_TIMEOUT"

/-- The text of an exception, where its kind stands for the words that are the language's own. -/
def Failure.text : Failure → String
  | decodeError code reason => code.text ++ ": " ++ reason
  | valueError message => message
  | overflowError => "int too big to convert"
  | indexError => "index out of range"
  | typeError => "TypeError"
  | keyError => "KeyError"

/-- The transport errors with the codes they are sent as. -/
def transportErrors : List (TransportError × Nat) := [
  (.noError, 0x00), (.internalError, 0x01), (.connectionRefused, 0x02),
  (.flowControlError, 0x03), (.streamLimitError, 0x04), (.streamStateError, 0x05),
  (.finalSizeError, 0x06), (.frameEncodingError, 0x07), (.transportParameterError, 0x08),
  (.protocolViolation, 0x0A), (.noViablePath, 0x10), (.zmuxExcessiveLoad, 0x25FF75EF),
  (.zmuxRoleConflict, 0x277DB2C3), (.zmuxResumeTimeout, 0x0EB87167),
  (.zmuxResumeFailed, 0x0F05F74E), (.zmuxPipeFailed, 0x296A5BF5),
  (.zmuxPipeResourceLimit, 0x0B4FA113), (.zmuxPipeAuthFailed, 0x09613938),
  (.zmuxIdleTimeout, 0x2736D55C)]

/-- The name of an error by its number. -/
def transportErrorName (code : Nat) : Option String :=
  (transportErrors.find? fun error => error.2 = code).map fun error => error.1.text

/-- The values of a stream preamble that the registry names. -/
inductive TlvName where
  | openInfo
  | priority
  | deadline
  | pipeCarrier
  deriving DecidableEq, Repr

/-- The name of a preamble value as it appears in error reasons. -/
def TlvName.text : TlvName → String
  | openInfo => "OPEN_INFO"
  | priority => "PRIORITY"
  | deadline => "DEADLINE"
  | pipeCarrier => "PIPE_CARRIER"

/-- Whether a preamble value is in use or only kept free. -/
inductive TlvStatus where
  | active
  | reserved
  deriving DecidableEq, Repr

/-- A row of the table of preamble values. -/
structure TlvMeta where
  name : TlvName
  type : Nat
  status : TlvStatus
  deriving DecidableEq, Repr

/-- The rows of the elements of a preamble. -/
def preambleTlvs : List TlvMeta := [
  ⟨.openInfo, 0x01, .active⟩,
  ⟨.priority, 0x02, .active⟩,
  ⟨.deadline, 0x03, .reserved⟩,
  ⟨.pipeCarrier, 0x05, .active⟩]

/-- The first type that belongs to applications. -/
def appTlvFirst : Nat := 0x1000

/-- The last number of the elements that applications may define. -/
def appTlvLast : Nat := 0x3FFF

/-- The types reserved for preamble values that a receiver must ignore. -/
def greaseTlv (n : Nat) : Nat := 0x1F * n + 0x21

/-- A number that is reserved for elements that must be ignored. -/
def isGreaseTlv (v : Nat) : Prop := v ≥ 0x21 ∧ (v - 0x21) % 0x1F = 0

instance (v : Nat) : Decidable (isGreaseTlv v) :=
  inferInstanceAs (Decidable (v ≥ 0x21 ∧ (v - 0x21) % 0x1F = 0))

/-- The way a pipe carries bytes, as a join names it. -/
inductive Direction where
  | up
  | down
  | bidi
  deriving DecidableEq, Repr

/-- The role a session endpoint takes. -/
inductive Role where
  | initiator
  | responder
  | auto
  deriving DecidableEq, Repr

/-- Whether a pipe is in use or held back. -/
inductive PipeStatus where
  | available
  | standby
  deriving DecidableEq, Repr

/-- The directions of a pipe by their bits. -/
def pipeDirections : List (Nat × Direction) := [(0, .up), (1, .down), (2, .bidi)]

/-- The roles by their numbers. -/
def roleValues : List (Nat × Role) := [(0, .initiator), (1, .responder), (2, .auto)]

/-- The statuses of a pipe by their numbers. -/
def pipeStatusValues : List (Nat × PipeStatus) := [(0, .available), (1, .standby)]

/-- The flag of a join that is bound to its carrier. -/
def pipeJoinFlagCarrierBound : Nat := 0x04

/-- The flag of a join that is on standby. -/
def pipeJoinFlagStandby : Nat := 0x08

/-- The flags of a join that have no meaning. -/
def pipeJoinReservedMask : Nat := 0xF0

/-- The priority of a pipe that says none. -/
def pipePriorityDefault : Nat := 0

namespace Limits

/-- How long a join may be. -/
def maxJoinFrameBytes : Nat := 64

/-- How long a locator may be. -/
def maxLocatorBytes : Nat := 16

/-- How long a lane key is. -/
def laneKeyBytes : Nat := 16

/-- The least size of records that an endpoint may announce. -/
def defaultMaxRecordSize : Nat := 16382

/-- The size that records are built and checked with. -/
def zmuxMaxRecordSize : Nat := 65535

/-- What a record must have room for beside a preamble. -/
def maxPreambleTpOverhead : Nat := 32

end Limits

/-- The name that the former draft has for a configured protocol, if it has one. -/
def alpnAlias (identifier : String) : Option String :=
  if identifier = "qmux-02" then some "qmux-01"
  else if "qmux-02.".toList <+: identifier.toList then
    some ("qmux-01." ++ String.ofList (identifier.toList.drop "qmux-02.".length))
  else if "-02".toList <:+ identifier.toList then
    some (String.ofList (identifier.toList.take (identifier.length - 3)) ++ "-01")
  else none

end Zmux
