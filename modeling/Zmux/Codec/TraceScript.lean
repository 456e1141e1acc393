import Zmux.Codec.Crypto
import Zmux.Codec.TraceFile
import Zmux.Wire.Paths

/-! Whole traces: the carriers, the calls of the application and the expectations around the peer's bytes. -/

namespace Zmux

open Wire

/-- A dict with other fields set in turn. -/
def update (fields others : Fields) : Fields :=
  others.foldl (fun held field => setField held field.1 field.2) fields

section Profiles

/-- The nonce of the local endpoint. -/
def localNonce : Bytes :=
  [0xFF, 0xEE, 0xDD, 0xCC, 0xBB, 0xAA, 0x99, 0x88, 0x77, 0x66, 0x55, 0x44, 0x33, 0x22, 0x11, 0x00]

/-- The lane key of the local endpoint. -/
def localLaneKey : Bytes := label "zmux-lane-key-LL"

/-- The lane key of the peer. -/
def peerLaneKey : Bytes := label "zmux-lane-key-PP"

/-- A value for the number of lanes, with the key of the peer unless another one is given. -/
def lanes (n : Nat) (key : Bytes := peerLaneKey) : Value :=
  .dict [("max_lanes", .nat n), ("lane_key", .bytes key)]

/-- The parameters that all small profiles have. -/
def smallTp : Fields :=
  [("max_idle_timeout", .nat 30000), ("initial_max_data", .nat 8192),
    ("initial_max_stream_data_bidi_local", .nat 2048),
    ("initial_max_stream_data_bidi_remote", .nat 2048),
    ("initial_max_stream_data_uni", .nat 2048), ("initial_max_streams_bidi", .nat 4),
    ("initial_max_streams_uni", .nat 4), ("reset_stream_at", .none), ("zmux_goaway", .none),
    ("zmux_preamble", .nat 512), ("zmux_priority", .none), ("max_record_size", .nat 65535)]

/-- The small parameters with those of acknowledgements and lanes. -/
def localSmallTp : Fields :=
  update smallTp [("zmux_pipe_ack", .none), ("zmux_max_lanes", lanes 4 localLaneKey)]

/-- The parameter of an endpoint whose joins are keyed by a shared secret. -/
def mpTp (nonce locator : Bytes) : Value :=
  .dict [("flags", .nat 0x04), ("nonce", .bytes nonce), ("locator", .bytes locator)]

/-- The transport parameters that the local endpoint sends in each profile. -/
def profiles : List (String × Fields) := [
  ("zmux-default",
    [("max_idle_timeout", .nat 30000), ("initial_max_data", .nat 1048576),
      ("initial_max_stream_data_bidi_local", .nat 262144),
      ("initial_max_stream_data_bidi_remote", .nat 262144),
      ("initial_max_stream_data_uni", .nat 262144), ("initial_max_streams_bidi", .nat 256),
      ("initial_max_streams_uni", .nat 16), ("reset_stream_at", .none), ("zmux_goaway", .none),
      ("zmux_preamble", .nat 4096), ("zmux_priority", .none), ("zmux_pipe_ack", .none),
      ("zmux_max_lanes", lanes 258 localLaneKey), ("max_record_size", .nat 65535)]),
  ("zmux-small", localSmallTp),
  ("zmux-small-dgram",
    update localSmallTp [("max_datagram_frame_size", .nat 1200), ("zmux_datagram_flows", .none)]),
  ("zmux-role-auto",
    update localSmallTp [("zmux_role", .dict [("role", .str "auto"), ("nonce", .nat 1000)])]),
  ("zmux-mp",
    update localSmallTp [("zmux_multipath", mpTp localNonce localLocator),
      ("zmux_ack_threshold", .nat 4096)]),
  ("zmux-mp-resume",
    update localSmallTp [("zmux_multipath", mpTp localNonce localLocator),
      ("zmux_ack_threshold", .nat 4096), ("zmux_resume", .nat 30000)])]

end Profiles

/-- What the first line of a trace file says of the trace. -/
structure Header where
  id : String
  title : String
  refs : List String
  profile : String := "zmux-small"
  localRole : String := "responder"
  overrides : Fields := []

/-- The groups of a trace, which are the parts of its name but for the last one. -/
def Header.groups (header : Header) : List String := (splitText '.' header.id).dropLast

/-- The fields of the first line. -/
def Header.fields (header : Header) : Fields :=
  [("kind", .str "trace"), ("id", .str header.id), ("title", .str header.title),
    ("profile", .str header.profile), ("local_role", .str header.localRole),
    ("overrides", .dict header.overrides), ("refs", .list (header.refs.map .str)),
    ("groups", .list (header.groups.map .str))]

/-- A step that delivers bytes of the peer, or any other one with its fields. -/
inductive TraceStep where
  | deliver (step : Step)
  | other (fields : Fields)

/-- The fields of a step, without its number. -/
def TraceStep.fields : TraceStep → Fields
  | deliver step => step.fields
  | other fields => fields

/-- A trace with all its steps, and the bytes the peer has delivered by then. -/
structure Script where
  header : Header
  steps : List TraceStep
  peerSent : Tally Target

/-- A script without steps. -/
def Script.fresh (header : Header) : Script := ⟨header, [], Tally.empty⟩

section Methods

variable (t : Script)

/-- Append a step that delivers nothing. -/
def Script.add (fields : Fields) : Script := { t with steps := t.steps ++ [.other fields] }

/-- Append what a call that delivers bytes appends, and count what it counts. -/
def Script.deliver (call : Call) : Except Failure Script := do
  let next ← call.apply ⟨[], t.peerSent⟩
  return { t with steps := t.steps ++ next.steps.map .deliver, peerSent := next.peerSent }

/-- A text that is there and not empty. -/
def given (text : Option String) : Option String := text.filter fun text => text ≠ ""

/-- The lane of a pipe, which is not written for lane zero. -/
def laneField (lane : Nat) : Fields := if lane ≠ 0 then [("lane", .nat lane)] else []

/-- The fields of a pipe that comes up, in which the keywords are set last. -/
def upFields (pipe : Option Nat) (dir : String) (via : Option String) (kw : Fields) : Fields :=
  update ([("op", .str "pipe_up")] ++ optional "pipe" .nat pipe ++ [("dir", .str dir)]
    ++ optional "via" .str (given via)) kw

/-- A pipe comes up. -/
def Script.up (pipe : Option Nat := none) (dir : String := "bidi") (via : Option String := none)
    (kw : Fields := []) : Script :=
  t.add (upFields pipe dir via kw)

/-- A lane comes up on a carrier. -/
def Script.laneUp (carrier conn : String) : Script :=
  t.add [("op", .str "pipe_up"), ("carrier", .str carrier), ("dir", .str "in"),
    ("via", .str "lane"), ("conn", .str conn)]

/-- A number, or nothing. -/
def natOrNone : Option Nat → Value
  | some number => .nat number
  | none => .none

/-- A text, or nothing. -/
def strOrNone : Option String → Value
  | some text => .str text
  | none => .none

/-- The fields of a pipe that ends, or of a carrier. -/
def downFields (pipe : Option Nat) (dir how : String) (carrier : Option String) (lane : Nat) :
    Fields :=
  match carrier with
  | some carrier =>
    [("op", .str "pipe_down"), ("carrier", .str carrier), ("dir", .str dir), ("how", .str how)]
  | none =>
    [("op", .str "pipe_down"), ("pipe", natOrNone pipe)] ++ laneField lane
      ++ [("dir", .str dir), ("how", .str how)]

/-- A pipe or a carrier ends. -/
def Script.down (pipe : Option Nat := none) (dir : String := "bidi") (how : String := "error")
    (carrier : Option String := none) (lane : Nat := 0) : Script :=
  t.add (downFields pipe dir how carrier lane)

/-- A pipe can be written to, or not any more. -/
def Script.writable (pipe : Nat) (w : Bool) : Script :=
  t.add [("op", .str "set_writable"), ("pipe", .nat pipe), ("writable", .bool w)]

/-- The application calls the endpoint. -/
def Script.api (call : String) (expect : Option Value := none) (bind : Option String := none)
    (args : Fields := []) : Script :=
  t.add ([("op", .str "api"), ("call", .str call), ("args", .dict args)]
    ++ optional "bind" .str (given bind) ++ optional "expect" id expect)

/-- Frames that must be sent on a pipe. -/
def Script.frames (pipe : Value) (patterns : List Value) (matching : String := "contains")
    (oneCreditPerRecord : Bool := false) (lane : Nat := 0) : Script :=
  t.add ([("op", .str "expect_frames"), ("pipe", pipe)] ++ laneField lane
    ++ [("match", .str matching), ("frames", .list patterns)]
    ++ if oneCreditPerRecord then [("one_credit_per_record", .bool true)] else [])

/-- Types of frames that must not be sent. -/
def Script.noFrames (pipe : Value := .str "*") (types : List String := []) (lane : Nat := 0) :
    Script :=
  t.add ([("op", .str "expect_no_frames"), ("pipe", pipe)] ++ laneField lane
    ++ if types ≠ [] then [("types", .list (types.map .str))] else [])

/-- What is said about the frame of a close: the default of its space, or a value. -/
inductive CloseWire where
  | default
  | said (value : Value)

/-- Whether a close is to be seen on the wire, where nothing is written for the ones that need not be. -/
def closeWire (space : String) (remote : Option Bool) : CloseWire → Value
  | .default => if remote = some true ∨ space = "local" then .none else .bool true
  | .said value => value

/-- The fields of an expected close. -/
def closeFields (code : Value) (space : String) (wire : CloseWire) (remote : Option Bool) : Fields :=
  let error := Value.dict ([("space", .str space), ("code", code)]
    ++ optional "remote" .bool remote)
  match closeWire space remote wire with
  | .none => [("op", .str "expect_close"), ("error", error)]
  | wire => [("op", .str "expect_close"), ("error", error), ("wire", wire)]

/-- The session must close. -/
def Script.closed (code : Value) (space : String := "transport") (wire : CloseWire := .default)
    (remote : Option Bool := none) : Script :=
  t.add (closeFields code space wire remote)

/-- The session must be open. -/
def Script.isOpen : Script := t.add [("op", .str "expect_open")]

/-- The session or a pipe must be in a state. -/
def Script.state (session : Option String := none) (pipe : Option Nat := none)
    (dir : Option String := none) (pstate : Value := .none) : Script :=
  t.add ([("op", .str "expect_state")] ++ optional "session" .str (given session)
    ++ match pipe with
      -- With a pipe come its direction and state, be they given or not.
      | some pipe => [("pipe", .nat pipe), ("dir", strOrNone dir), ("state", pstate)]
      | none => [])

/-- An event must come, with these fields. -/
def Script.event (name : String) (fields : Fields := []) : Script :=
  t.add [("op", .str "expect_event"), ("event", .str name), ("fields", .dict fields)]

/-- An event must not come. -/
def Script.noEvent (name : String) : Script :=
  t.add [("op", .str "expect_no_event"), ("event", .str name)]

/-- A pipe must end. -/
def Script.pipeClosed (pipe : Nat) (dir : String := "out") (how : String := "any")
    (lane : Nat := 0) : Script :=
  t.add ([("op", .str "expect_pipe_closed"), ("pipe", .nat pipe)] ++ laneField lane
    ++ [("dir", .str dir), ("how", .str how)])

/-- A carrier must be refused. -/
def Script.rejectCarrier (carrier : String) : Script :=
  t.add [("op", .str "expect_reject_carrier"), ("carrier", .str carrier)]

/-- Time passes. -/
def Script.adv (ms : Nat) : Script := t.add [("op", .str "advance"), ("ms", .nat ms)]

/-- A remark for readers. -/
def Script.note (text : String) : Script := t.add [("op", .str "note"), ("text", .str text)]

/-- The parameters of the profile, and over them those of the header. -/
def Script.localTp : Except Failure Fields := do
  let prof ← entry profiles t.header.profile
  match t.header.overrides.lookup "tp" with
  | none => return prof
  | some (.dict others) => return update prof others
  | some _ => .error .typeError

/-- The parameters of the local endpoint must be its first frame. -/
def Script.expectLocalTp : Except Failure Script := do
  let params ← t.localTp
  return t.frames (.nat 0) [.dict [("type", .str "QX_TRANSPORT_PARAMETERS"),
    ("params_include", (Value.dict params).toJson), ("grease", .bool true)]] "first"

/-- The parameters of a dict as a list, and one behind them that a receiver must ignore. -/
def tpList (d : Fields) (grease : Option (Nat × Bytes) := some (58, [0xAB, 0xCD])) : List Value :=
  d.map (fun field => .dict [("id", .str field.1), ("value", field.2)])
    ++ grease.toList.map fun grease => .dict [("id", .nat grease.1), ("raw", .bytes grease.2)]

/-- The frame of transport parameters. -/
def tpFrame (params : List Value) : Value :=
  .dict [("type", .str "QX_TRANSPORT_PARAMETERS"), ("params", .list params)]

/-- The first pipe comes up, and both sides send their parameters. -/
def Script.handshake (peerTps : Fields)
    (grease : Option (Nat × Bytes) := some (58, [0xAB, 0xCD]))
    (features : Option (List String) := none) (role : Option String := none)
    (carrier : Fields := []) : Except Failure Script := do
  let t := t.up (some 0) "bidi" (some "bootstrap") carrier
  let t ← t.expectLocalTp
  let t ← t.deliver (.send (some 0) [[tpFrame (tpList peerTps grease)]] [] false none)
  return t.event "established" (optional "features" (fun names => .list (names.map .str)) features
    ++ optional "role" .str role)

/-- The line of a step, with its number in front of what is said of it. -/
def TraceStep.line (step : TraceStep) (number : Nat) : Fields :=
  fieldsToJson (update [("step", .nat number)] step.fields)

/-- The lines of a trace file: the header, and the steps, which are numbered from one. -/
def Script.toLines : List Fields :=
  fieldsToJson t.header.fields :: t.steps.mapIdx fun i step => step.line (i + 1)

end Methods

/-- A call of the builder of a trace. -/
inductive ScriptCall where
  | deliver (call : Call)
  | up (pipe : Option Nat) (dir : String) (via : Option String) (kw : Fields)
  | laneUp (carrier conn : String)
  | down (pipe : Option Nat) (dir how : String) (carrier : Option String) (lane : Nat)
  | writable (pipe : Nat) (w : Bool)
  | api (call : String) (expect : Option Value) (bind : Option String) (args : Fields)
  | frames (pipe : Value) (patterns : List Value) (matching : String) (oneCreditPerRecord : Bool)
      (lane : Nat)
  | expectLocalTp
  | noFrames (pipe : Value) (types : List String) (lane : Nat)
  | closed (code : Value) (space : String) (wire : CloseWire) (remote : Option Bool)
  | isOpen
  | state (session : Option String) (pipe : Option Nat) (dir : Option String) (pstate : Value)
  | event (name : String) (fields : Fields)
  | noEvent (name : String)
  | pipeClosed (pipe : Nat) (dir how : String) (lane : Nat)
  | rejectCarrier (carrier : String)
  | adv (ms : Nat)
  | note (text : String)

/-- What a call of the builder does. -/
def ScriptCall.apply (t : Script) : ScriptCall → Except Failure Script
  | deliver call => t.deliver call
  | up pipe dir via kw => .ok (t.up pipe dir via kw)
  | laneUp carrier conn => .ok (t.laneUp carrier conn)
  | down pipe dir how carrier lane => .ok (t.down pipe dir how carrier lane)
  | writable pipe w => .ok (t.writable pipe w)
  | api call expect bind args => .ok (t.api call expect bind args)
  | frames pipe patterns matching once lane => .ok (t.frames pipe patterns matching once lane)
  | expectLocalTp => t.expectLocalTp
  | noFrames pipe types lane => .ok (t.noFrames pipe types lane)
  | closed code space wire remote => .ok (t.closed code space wire remote)
  | isOpen => .ok t.isOpen
  | state session pipe dir pstate => .ok (t.state session pipe dir pstate)
  | event name fields => .ok (t.event name fields)
  | noEvent name => .ok (t.noEvent name)
  | pipeClosed pipe dir how lane => .ok (t.pipeClosed pipe dir how lane)
  | rejectCarrier carrier => .ok (t.rejectCarrier carrier)
  | adv ms => .ok (t.adv ms)
  | note text => .ok (t.note text)

/-- A sequence of calls, the first of which that raises ends the run. -/
def runScript : List ScriptCall → Script → Except Failure Script
  | [], t => .ok t
  | call :: calls, t => do
    let t ← call.apply t
    runScript calls t

end Zmux
