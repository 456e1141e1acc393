import Zmux.Codec.JsonText
import Zmux.Codec.TraceSuite

/-! The files of the suite as texts: what the builder of traces writes, and what its check reads. -/

namespace Zmux

open Wire

section Written

/-- A type of preamble fields that a receiver does not know. -/
def greaseTlvType : Nat := 0x21

/-- The key that both endpoints of a trace share. -/
def psk : Bytes := label "zmux-trace-psk-0123456789abcdef!"

/-- What a test sets in the local endpoint. -/
def testHooks : Fields :=
  [("grease_tp", .dict [("id", .nat 27), ("value", .str "")]),
    ("grease_tlv", .dict [("type", .nat greaseTlvType), ("value", .str "")]),
    ("ping_seq_start", .nat 0), ("lane_key", .bytes localLaneKey)]

/-- The configuration that all small profiles share, with fields in the middle and at the end. -/
def smallConfig (middle last : Fields) : Fields :=
  [("keep_alive_period", .nat 0), ("handshake_timeout", .nat 10000)] ++ middle
    ++ [("max_incoming_uni_streams", .nat 4)] ++ last ++ [("probe_jitter", .nat 0)]

/-- What the profiles with several pipes set at the end of their configuration. -/
def multipathConfig : Fields :=
  [("probation", .nat 0), ("redundancy", .str "off"), ("standby_probe", .nat 0)]

/-- The hooks of profiles with several pipes. -/
def multipathHooks : Fields :=
  update testHooks [("session_nonce", .bytes localNonce), ("rtt_ms", .nat 10)]

/-- The configuration and the test hooks of each profile, in the order of the profiles. -/
def profileParts : List (Fields × Fields) := [
  ([("keep_alive_period", .nat 0), ("handshake_timeout", .nat 10000),
    ("max_incoming_uni_streams", .none), ("probe_jitter", .nat 0)], testHooks),
  (smallConfig [] [], testHooks),
  (smallConfig [("enable_datagrams", .bool true)] [], testHooks),
  (smallConfig [("role", .str "auto")] [], update testHooks [("role_nonce", .nat 1000)]),
  (smallConfig [("max_pipes", .nat 8), ("scheduler", .str "spread-eta"),
    ("pipe_auth", .dict [("psk", .bytes psk)])] multipathConfig, multipathHooks),
  (smallConfig [("max_pipes", .nat 8), ("scheduler", .str "spread-eta"),
    ("pipe_auth", .dict [("psk", .bytes psk)]), ("resume_timeout", .nat 30000)] multipathConfig,
    multipathHooks)]

/-- A profile with its parameters, its configuration and its test hooks. -/
def profileValue (row : String × Fields) (parts : Fields × Fields) : String × Value :=
  (row.1, .dict [("tp", .dict row.2), ("config", .dict parts.1), ("test", .dict parts.2)])

/-- The profiles as they are written. -/
def profilesJson : Value := (Value.dict (profiles.zipWith profileValue profileParts)).toJson

/-- The text of a file that holds one value. -/
def fileText (value : Value) : Except Failure String := do
  let text ← dumps value (some 2)
  return text ++ "\n"

/-- The fields of an entry of the index. -/
def IndexEntry.fields (entry : IndexEntry) : Fields :=
  [("id", .str entry.id), ("file", .str entry.file.text), ("title", .str entry.title),
    ("refs", .list (entry.refs.map .str)), ("profile", .str entry.profile),
    ("steps", .nat entry.steps)]

/-- The files that the builder of traces writes. -/
structure TraceTexts where
  profiles : String
  files : List (Path × String)
  index : String

/-- The texts of a suite. -/
def Suite.texts (suite : Suite) : Except Failure TraceTexts := do
  let profiles ← fileText profilesJson
  let files ← suite.files.mapM fun row => do
    let text ← linesText row.2
    return (row.1, text)
  let index ← fileText (.dict [("traces", .list (suite.index.map fun entry => .dict entry.fields))])
  return ⟨profiles, files, index⟩

end Written

section Read

variable (refOk : String → Bool)

/-- What is found wrong with the parameters of a profile that was read. -/
def checkProfileText (name : String) (prof : Value) : Except Failure (List String) := do
  let prof ← prof.fields
  let tp ← entry prof "tp"
  let tp ← tp.fields
  checkTps name (.list (tpList tp none))

/-- The rows of an index. -/
def readIndex (text : String) : Except Failure (List Fields) := do
  let value ← loads text
  let fields ← value.fields
  let rows ← entry fields "traces"
  let rows ← rows.listed
  rows.mapM Value.fields

/-- The text under a key that must be there. -/
def textEntry (fields : Fields) (key : String) : Except Failure String := do
  let value ← entry fields key
  match value.text with
  | some text => return text
  | none => .error .typeError

/-- The number under a key that must be there. -/
def natEntry (fields : Fields) (key : String) : Except Failure Nat := do
  let value ← entry fields key
  match value.natural with
  | some number => return number
  | none => .error .typeError

/-- What is found wrong with the lines of steps, each of which is read when it is its turn. -/
def checkStepTexts (tid : String) (binds : List String) (i : Nat) : List (List Char) →
    Except Failure (List String)
  | [] => .ok []
  | line :: lines => do
    let s ← readLine line
    Reports.both
      ((checkStep binds i s).map fun reports => reports.map fun report =>
        "trace " ++ tid ++ " step " ++ toString i ++ ": " ++ report)
      (checkStepTexts tid (boundBehind binds s) (i + 1) lines)

/-- The path that a text names. -/
def pathOf (text : String) : Path := Path.joinpath ⟨false, []⟩ text

/-- What is found wrong with the text of a file that a row of the index is about. -/
def checkFileText (names : List String) (file : String) (row : Fields) (text : String) :
    Except Failure (List String) :=
  match splitLines text.toList with
  | [] => .error .indexError
  | first :: lines => do
    let head ← readLine first
    let tid := textAt head "id"
    let expected ← expectedId (pathOf file)
    -- The id of the row is asked for only where the path is that of the header.
    let agree ← if tid = some expected then do
        let id ← entry row "id"
        pure (decide (id.text = tid))
      else pure false
    Reports.both (.ok (reportIf (agree = false)
      ("traces: id " ++ shown tid ++ " does not match path " ++ file)))
      (Reports.both (checkHeaderText refOk names head)
        (Reports.both (checkStepTexts (shown tid) [] 1 lines)
          (.ok (reportIf (lines.length < 2) ("trace " ++ shown tid ++ ": too short")))))

/-- What is found wrong with a row of the index and its file, if there is one. -/
def checkRow (names : List String) (files : List (Path × String)) (row : Fields) :
    Except Failure (List String) := do
  let file ← textEntry row "file"
  match files.lookup (pathOf file) with
  | none => .ok []
  | some text => checkFileText refOk names file row text

/-- What is found wrong with the files of a suite. -/
def checkTraceTexts (texts : TraceTexts) : Except Failure (List String) := do
  let profiles ← loads texts.profiles
  let profiles ← profiles.fields
  let reports ← Reports.each (fun row => checkProfileText row.1 row.2) profiles
  let index ← readIndex texts.index
  let listed ← index.mapM fun row => textEntry row "file"
  let files := ((texts.files.map Prod.fst).filter isTraceFile).map Path.text
  let unlisted := (files.filter fun file => file ∉ listed).map fun file =>
    "traces: " ++ file ++ " not in index.json"
  let missing := (listed.eraseDups.filter fun file => file ∉ files).map fun file =>
    "traces: index.json lists missing " ++ file
  Reports.both (.ok (reports ++ unlisted ++ missing))
    (Reports.both (Reports.each (checkRow refOk (profiles.map Prod.fst) texts.files) index)
      (.ok (reportIf (index.length < 100)
        ("traces: only " ++ toString index.length ++ " traces"))))

/-- The numbers of the inventory, which are counted in the files and in the rows of the index. -/
def manifestTexts (texts : TraceTexts) : Except Failure ManifestCounts := do
  let index ← readIndex texts.index
  let ids ← index.mapM fun row => textEntry row "id"
  let steps ← index.mapM fun row => natEntry row "steps"
  let groups := countRows (fun id => (splitText '.' id).headD "") ids
  return ⟨((texts.files.map Prod.fst).filter isTraceFile).length, steps.sum,
    groups.mergeSort fun first second => first.1 ≤ second.1⟩

end Read

end Zmux
