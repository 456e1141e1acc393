import Zmux.Codec.Corpus
import Zmux.Codec.TraceScript

/-! The check of trace files: the schema of each step, the bytes of the peer, and the handles in use. -/

namespace Zmux

open Wire

/-- The operations of steps, with the fields that each must have and may have. -/
def ops : List (String × List String × List String) := [
  ("pipe_up", ["dir"], ["pipe", "carrier", "via", "oob_join", "carrier_binding", "pairing",
    "framing", "source", "conn"]),
  ("pipe_down", ["dir", "how"], ["pipe", "carrier", "lane"]),
  ("set_writable", ["pipe", "writable"], []),
  ("peer_send", [], ["pipe", "carrier", "records", "hex", "chunks", "invalid", "messages",
    "messages_hex"]),
  ("api", ["call", "args"], ["bind", "expect"]),
  ("expect_frames", ["pipe", "frames", "match"], ["lane", "one_credit_per_record"]),
  ("expect_no_frames", ["pipe"], ["lane", "types"]),
  ("expect_close", ["error"], ["wire"]),
  ("expect_open", [], []),
  ("expect_state", [], ["session", "pipe", "dir", "state"]),
  ("expect_event", ["event", "fields"], []),
  ("expect_no_event", ["event"], []),
  ("expect_pipe_closed", ["pipe", "dir", "how"], ["lane"]),
  ("expect_reject_carrier", ["carrier"], []),
  ("advance", ["ms"], []),
  ("note", ["text"], [])]

/-- The calls of the application. -/
def apiCalls : List String := ["open_bidi", "open_uni", "accept_bidi", "accept_uni", "write",
  "finish", "reset", "stop", "read", "release", "reject", "set_priority", "set_peer_priority",
  "send_datagram", "recv_datagram", "ping", "shutdown", "close", "add_pipe", "remove_pipe",
  "set_pipe_status", "set_scheduler", "stream_id", "set_reliable_boundary", "revalidate_pipes",
  "set_redundant"]

/-- The events that a trace may expect. -/
def traceEvents : List String := ["established", "goaway_received", "pipe_state",
  "join_auth_failed", "suspended", "resumed", "datagram_dropped", "closed", "oob_join"]

/-- The reasons for which an endpoint closes by itself. -/
def localReasons : List String :=
  ["HANDSHAKE_TIMEOUT", "IDLE_TIMEOUT", "PIPES_LOST", "EARLY_DATA_REJECTED"]

/-- The features that may be established. -/
def features : List String := ["role", "goaway", "preamble", "priority", "datagram_flows",
  "multipath", "pipe_ack", "resume"]

/-- The states of a session. -/
def sessionStates : List String :=
  ["ESTABLISHING", "ACTIVE", "DRAINING", "SUSPENDED", "CLOSING", "CLOSED"]

/-- The states of a pipe, of either kind. -/
def pipeStates : List String := ["JOINING", "ACTIVE", "SUSPECT", "DRAINING", "FAILED", "CLOSED",
  "RETIRED", "OPEN", "ENDED"]

/-- The types that a pattern may name: those of frames, and three that are no types of their own. -/
def patternNames : List String :=
  frameNames.map FrameName.text ++ ["STREAM_DATA", "RAW", "REPEAT"]

section Values

mutual

/-- Whether a value holds a frame that is given as bytes. -/
def Value.hasRaw : Value → Bool
  | .dict fields => (fields.lookup "type").bind Value.text = some "RAW" || fieldsHaveRaw fields
  | .list items => itemsHaveRaw items
  | .none | .bool _ | .int _ | .str _ | .bytes _ => false

/-- Whether bytes as they are stand somewhere in the fields. -/
def fieldsHaveRaw : Fields → Bool
  | [] => false
  | (_, value) :: fields => value.hasRaw || fieldsHaveRaw fields

/-- Whether bytes as they are stand somewhere in the items. -/
def itemsHaveRaw : List Value → Bool
  | [] => false
  | item :: items => item.hasRaw || itemsHaveRaw items

end

/-- The number that a value is, where a truth value is one too. -/
def Value.integer : Value → Option Int
  | .int number => some number
  | .bool flag => some (if flag then 1 else 0)
  | _ => .none

/-- The number that a value must be to be added. -/
def Value.number (value : Value) : Except Failure Int :=
  match value.integer with
  | some number => .ok number
  | .none => .error .typeError

/-- Whether a value counts as true. -/
def Value.truthy : Value → Bool
  | .none => false
  | .bool flag => flag
  | .int number => number ≠ 0
  | .str text => text ≠ ""
  | .bytes data => data ≠ []
  | .list items => !items.isEmpty
  | .dict fields => !fields.isEmpty

/-- The items that a value is iterated over as. -/
def Value.listed : Value → Except Failure (List Value)
  | .list items => .ok items
  -- A text has its letters, a dict its keys, and a byte string its numbers.
  | .str text => .ok (text.toList.map fun letter => .str (String.ofList [letter]))
  | .dict fields => .ok (fields.map fun field => .str field.1)
  | .bytes data => .ok (data.map fun byte => .nat byte.toNat)
  | .none | .bool _ | .int _ => .error .typeError

/-- The fields of a value that must be a dict. -/
def Value.fields : Value → Except Failure Fields
  | .dict fields => .ok fields
  | _ => .error .typeError

/-- The choices of a value, which are those of a dict that offers several. -/
def Value.choices : Value → Except Failure (List Value)
  | .dict fields => do
    let offered ← entry fields "oneof"
    offered.listed
  | other => .ok [other]

/-- The text under a key, if it is one. -/
def textAt (s : Fields) (key : String) : Option String := (s.lookup key).bind Value.text

/-- A text in a report, where a value that is none is not spelled out. -/
def shown (value : Option String) : String := value.getD "None"

/-- A list of texts in a report, in their order. -/
def shownList (texts : List String) : String :=
  let quoted := (texts.mergeSort fun first second => decide (first ≤ second)).map fun text =>
    "'" ++ text ++ "'"
  "[" ++ ", ".intercalate quoted ++ "]"

end Values

section Steps

/-- The fields of a step are those of its operation. -/
def checkSchema (op : String) (required allowed : List String) (s : Fields) : List String :=
  let missing := required.filter fun key => ¬ hasField s key
  let unknown := (s.map Prod.fst).filter fun key => key ∉ ["step", "op"] ++ required ++ allowed
  reportIf (missing ≠ []) (op ++ " lacks " ++ shownList missing)
    ++ reportIf (unknown ≠ []) (op ++ " has unknown fields " ++ shownList unknown)

/-- A step on a pipe or a carrier names one of the two. -/
def checkTarget (op : String) (s : Fields) : List String :=
  reportIf (op ∈ ["pipe_up", "pipe_down", "peer_send"] ∧ hasField s "pipe" = hasField s "carrier")
    (op ++ " needs exactly one of pipe and carrier")

/-- What is wrong with a pipe that comes up: its kind, or what a lane lacks. -/
def checkPipeUp (s : Fields) : Except Failure (List String) := do
  let via := (s.lookup "via").getD (.str "bootstrap")
  let lane ←
    -- The direction is looked at only where the other two are there.
    if via.text = some "lane" ∧ hasField s "carrier" ∧ hasField s "conn" then do
      let dir ← entry s "dir"
      pure (reportIf (dir.text ≠ some "in") "a lane is an inbound carrier with conn")
    else pure (reportIf (via.text = some "lane") "a lane is an inbound carrier with conn")
  return reportIf (via.text ∉ ["bootstrap", "listener", "lane"].map some) "bad via" ++ lane

/-- A lane is numbered from one, and belongs to one pipe. -/
def checkLane (op : String) (s : Fields) : List String :=
  match s.lookup "lane" with
  | none => []
  | some lane =>
    reportIf (op ∈ ["expect_frames", "expect_no_frames", "pipe_down", "expect_pipe_closed"] ∧
      (((s.lookup "pipe").getD (.str "*")).text = some "*" ∨ ¬ ∃ number ∈ lane.integer, 1 ≤ number))
      "bad lane"

/-- What is wrong with a direction. -/
def checkDir (op : String) (s : Fields) : List String :=
  reportIf (op ∈ ["pipe_up", "pipe_down", "expect_pipe_closed"] ∧
    textAt s "dir" ∉ ["in", "out", "bidi"].map some) "bad dir"

/-- What is wrong with the way a pipe ends. -/
def checkHow (op : String) (s : Fields) : List String :=
  reportIf (op = "pipe_down" ∧ textAt s "how" ∉ ["eof", "error"].map some) "bad how"

/-- The messages of a step are those that its bytes were encoded from. -/
def checkMessagesHex (s : Fields) (texts : Value) : Except Failure (List String) :=
  match s.lookup "messages" with
  | none | some .none => .ok []
  | some messages => do
    let listed ← messages.listed
    let enc ← listed.mapM fun m => do
      let frames ← m.fromJson
      let bytes ← encodeFramesDict frames
      return Value.str (hexText bytes)
    return reportIf (¬ (Value.list enc).same texts) "messages_hex does not match messages"

/-- The records of a step decode, unless they hold raw bytes or are said to be invalid. -/
def checkDecodes (s : Fields) : Except Failure (List String) :=
  match s.lookup "records" with
  | none | some .none => .ok []
  | some recs => do
    let frames ← recs.fromJson
    if recs.hasPlaceholder ∨ recs.hasRaw ∨ ((s.lookup "invalid").getD .none).truthy then return []
    else match recordBytesDict frames with
      | .error _ => return []
      | .ok b => match decodeStream b Limits.zmuxMaxRecordSize with
        | .ok _ => return []
        | .error (.decodeError code reason) =>
          return ["records do not decode: " ++ code.text ++ ": " ++ reason]
        | .error fault => .error fault

/-- The chunks of a step add up to its bytes, where these are known. -/
def checkChunks (s : Fields) : Except Failure (List String) :=
  match s.lookup "chunks", s.lookup "hex" with
  | some chunks, some hex => do
    let b ← hex.fromHex
    let listed ← chunks.listed
    let sizes ← listed.mapM Value.number
    return reportIf (sizes.sum ≠ (b.length : Int)) "chunks do not add up"
  | _, _ => .ok []

/-- Whether the records of a step have bytes, or are left to be filled in. -/
def recordsStand (s : Fields) : Bool :=
  match s.lookup "records" with
  | none | some .none => true
  | some recs => recs.hasPlaceholder || (recordsEncoded recs).isOk

/-- The bytes of the peer agree with the records or the messages that are given beside them. -/
def checkPeerSend (s : Fields) : Except Failure (List String) :=
  match s.lookup "messages_hex" with
  | some texts => checkMessagesHex s texts
  | none =>
    let absent : Bool := match s.lookup "records" with
      | none | some .none => !hasField s "hex"
      | some _ => false
    Reports.both (.ok (reportIf (absent = true) "peer_send without bytes")) do
      let found ← checkRecords s
      -- Records that are not encoded have nothing else to be checked against.
      if recordsStand s = false then return found
      else Reports.both (.ok found) (Reports.both (checkDecodes s) (checkChunks s))

/-- A call of the application is one of its interface, and a stream that it names is bound before. -/
def checkApi (binds : List String) (s : Fields) : Except Failure (List String) := do
  let call ← entry s "call"
  let args ← entry s "args"
  let args ← args.fields
  let unbound := match textAt args "stream" with
    | some handle => reportIf (handle ∉ binds) ("unbound stream handle " ++ handle)
    | none => []
  return reportIf (call.text ∉ apiCalls.map some) ("unknown call " ++ shown call.text) ++ unbound

/-- What is wrong with a pattern of frames. -/
def checkPattern (p : Value) : Except Failure (List String) :=
  match p with
  | .dict fields => match fields.lookup "type" with
    | none => .ok ["pattern without type"]
    | some t =>
      if t.text = some "*" then .ok []
      else do
        let names ← t.choices
        return names.flatMap fun name => reportIf (name.text ∉ patternNames.map some)
          ("unknown frame type " ++ shown name.text)
  | _ => .ok ["pattern without type"]

/-- What is wrong with expected frames: the way of matching, or a pattern. -/
def checkExpectFrames (s : Fields) : Except Failure (List String) := do
  let matching ← entry s "match"
  let frames ← entry s "frames"
  let patterns ← frames.listed
  let mode := reportIf (matching.text ∉ ["exact", "contains", "unordered", "first"].map some)
    "bad match mode"
  Reports.both (.ok mode) (Reports.each checkPattern patterns)

/-- What is wrong with types that must not come. -/
def checkExpectNoFrames (s : Fields) : Except Failure (List String) := do
  let types ← ((s.lookup "types").getD (.list [])).listed
  return types.flatMap fun type => reportIf (type.text ∉ patternNames.map some)
    ("unknown frame type " ++ shown type.text)

/-- What is wrong with an expected close: its code, in the space it is of. -/
def checkExpectClose (s : Fields) : Except Failure (List String) := do
  let err ← entry s "error"
  let err ← err.fields
  let code := (err.lookup "code").getD .none
  return match textAt err "space" with
    | some "transport" =>
      reportIf (code.text ∉ transportErrors.map fun row => some row.1.text)
        ("unknown transport error " ++ shown code.text)
    | some "application" => reportIf (code.integer = none) "application code must be an integer"
    | some "local" =>
      reportIf (code.text ∉ localReasons.map some) ("unknown local reason " ++ shown code.text)
    | space => ["unknown error space " ++ shown space]

/-- What is wrong with an event, and with the features of an established session. -/
def checkEvent (op : String) (s : Fields) : Except Failure (List String) := do
  let event ← entry s "event"
  let known := reportIf (event.text ∉ traceEvents.map some) ("unknown event " ++ shown event.text)
  if op = "expect_event" ∧ event.text = some "established" then
    let fields ← entry s "fields"
    let fields ← fields.fields
    let names ← ((fields.lookup "features").getD (.list [])).listed
    return known ++ names.flatMap fun name => reportIf (name.text ∉ features.map some)
      ("unknown feature " ++ shown name.text)
  else return known

/-- What is wrong with an expected state, of the session or of a pipe. -/
def checkState (s : Fields) : Except Failure (List String) := do
  let session := (s.lookup "session").getD .none
  let state := (s.lookup "state").getD .none
  let values ← if state.truthy then state.choices else .ok []
  return reportIf (session.truthy ∧ session.text ∉ sessionStates.map some)
      ("unknown session state " ++ shown session.text)
    ++ values.flatMap fun value => reportIf (value.text ∉ pipeStates.map some)
      ("unknown pipe state " ++ shown value.text)

/-- What is wrong with time that passes. -/
def checkAdvance (s : Fields) : Except Failure (List String) := do
  let ms ← entry s "ms"
  return reportIf (¬ ∃ number ∈ ms.integer, 0 ≤ number) "bad advance"

/-- What is checked of the steps of one operation only. -/
def checkOperation (op : String) (binds : List String) (s : Fields) :
    Except Failure (List String) :=
  if op = "pipe_up" then checkPipeUp s
  else if op = "peer_send" then checkPeerSend s
  else if op = "api" then checkApi binds s
  else if op = "expect_frames" then checkExpectFrames s
  else if op = "expect_no_frames" then checkExpectNoFrames s
  else if op = "expect_close" then checkExpectClose s
  else if op = "expect_event" ∨ op = "expect_no_event" then checkEvent op s
  else if op = "expect_state" then checkState s
  else if op = "advance" then checkAdvance s
  else .ok []

/-- What is found wrong with the line of a step, where some handles are bound before it. -/
def checkStep (binds : List String) (i : Nat) (s : Fields) : Except Failure (List String) :=
  let numbered := reportIf (¬ ((s.lookup "step").getD .none).same (.nat i)) "step numbering broken"
  match ops.find? fun row => textAt s "op" = some row.1 with
  | none => .ok (numbered ++ ["unknown op " ++ shown (textAt s "op")])
  | some (op, required, allowed) =>
    let common := numbered ++ checkSchema op required allowed s ++ checkTarget op s
      ++ checkLane op s ++ checkDir op s ++ checkHow op s
    Reports.both (.ok common) (checkOperation op binds s)

/-- The handles that are bound behind a step. -/
def boundBehind (binds : List String) (s : Fields) : List String :=
  if textAt s "op" = some "api" then binds ++ (textAt s "bind").toList else binds

/-- What is found wrong with the lines of steps, with the number of the line in front of each report. -/
def checkSteps (tid : String) (binds : List String) (i : Nat) : List Fields →
    Except Failure (List String)
  | [] => .ok []
  | s :: lines => Reports.both
    ((checkStep binds i s).map fun reports => reports.map fun report =>
      "trace " ++ tid ++ " step " ++ toString i ++ ": " ++ report)
    (checkSteps tid (boundBehind binds s) (i + 1) lines)

end Steps

/-- What is found wrong with the first line of a file, where the names of the profiles are given. -/
def checkHeaderText (refOk : String → Bool) (names : List String) (head : Fields) :
    Except Failure (List String) := do
  let tid := shown (textAt head "id")
  let refs ← ((head.lookup "refs").getD (.list [])).listed
  let front := "trace " ++ tid ++ ": "
  return (["kind", "id", "title", "profile", "local_role", "refs", "groups"].flatMap fun key =>
      reportIf (hasField head key = false) (front ++ "header lacks " ++ key))
    ++ reportIf (textAt head "profile" ∉ names.map some)
      (front ++ "unknown profile " ++ shown (textAt head "profile"))
    ++ reportIf (textAt head "local_role" ∉ ["initiator", "responder"].map some)
      (front ++ "bad local_role")
    ++ refs.flatMap fun ref => reportIf (¬ ∃ text ∈ ref.text, refOk text = true)
      (front ++ "reference " ++ shown ref.text ++ " does not resolve")

/-- What is found wrong with the first line of a file, which names one of the profiles. -/
def checkHeader (refOk : String → Bool) (head : Fields) : Except Failure (List String) :=
  checkHeaderText refOk (profiles.map Prod.fst) head

/-- What is found wrong with the lines of a file, where some references are known to resolve. -/
def checkTrace (refOk : String → Bool) : List Fields → Except Failure (List String)
  -- Every file has a first line.
  | [] => .error .indexError
  | head :: lines =>
    let tid := shown (textAt head "id")
    Reports.both (checkHeader refOk head) (Reports.both (checkSteps tid [] 1 lines)
      (.ok (reportIf (lines.length < 2) ("trace " ++ tid ++ ": too short"))))

end Zmux
