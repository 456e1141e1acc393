import Zmux.Codec.TraceDsl

/-! The lines of a trace file, and their check that bytes and records agree. -/

namespace Zmux

open Wire

/-- The field that names the target of a step. -/
def Target.field : Target → String × Value
  | pipe id => ("pipe", match id with
    | some id => .nat id
    | none => .none)
  | carrier name => ("carrier", .str name)

/-- The fields of a step, where those that say nothing are left out. -/
def Step.fields (step : Step) : Fields :=
  [("op", .str "peer_send"), step.target.field] ++ optional "records" id step.records
    ++ (if step.invalid then [("invalid", .bool true)] else [])
    ++ optional "hex" .bytes step.hex ++ optional "messages" id step.messages
    ++ optional "messages_hex" (fun texts => .list (texts.map .str)) step.messagesHex
    ++ if step.chunks = [] then [] else [("chunks", .list (step.chunks.map .nat))]

/-- The line of a step with its number. -/
def Step.line (step : Step) (number : Nat) : Fields :=
  fieldsToJson (("step", .nat number) :: step.fields)

/-- The lines of a trace behind its header, whose steps are numbered from one. -/
def Trace.toLines (t : Trace) : List Fields := t.steps.mapIdx fun i step => step.line (i + 1)

/-- The bytes that the records of a line stand for. -/
def recordsEncoded (recs : Value) : Except Failure Bytes := do
  let frames ← recs.fromJson
  recordBytesDict frames

/-- What `check_traces` finds wrong between the records of a line without messages and its bytes. -/
def checkRecords (s : Fields) : Except Failure (List String) :=
  match s.lookup "records" with
  | none | some .none => .ok []
  | some recs => do
    let frames ← recs.fromJson
    if recs.hasPlaceholder then
      return if hasField s "hex" then ["hex present despite placeholders"] else []
    else match recordBytesDict frames with
      | .error fault => return ["records do not encode: " ++ fault.text]
      | .ok b =>
        return if (s.lookup "hex").bind Value.text = some (hexText b) then []
          else ["hex does not match records"]

end Zmux
