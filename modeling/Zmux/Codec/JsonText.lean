import Zmux.Codec.TraceCheck
import Zmux.Wire.Json
import Zmux.Wire.Lines

/-! Values as JSON texts, and the texts of trace files. -/

namespace Zmux

open Wire

section Values

mutual

/-- The JSON value that a value is written as, which bytes do not have. -/
def Value.json : Value → Except Failure Json
  | .none => .ok .null
  | .bool flag => .ok (.bool flag)
  | .int number => .ok (.number number)
  | .str text => .ok (.string text)
  | .bytes _ => .error .typeError
  | .list items => (itemsJson items).map .array
  | .dict fields => (fieldsJson fields).map .object

/-- The items of a list as JSON values. -/
def itemsJson : List Value → Except Failure (List Json)
  | [] => .ok []
  | item :: items => do
    let head ← item.json
    let tail ← itemsJson items
    return head :: tail

/-- The fields of a dict as those of an object. -/
def fieldsJson : Fields → Except Failure (List (String × Json))
  | [] => .ok []
  | (key, value) :: fields => do
    let head ← value.json
    let tail ← fieldsJson fields
    return (key, head) :: tail

end

mutual

/-- The value that a JSON value is read as. -/
def Value.ofJson : Json → Value
  | .null => .none
  | .bool flag => .bool flag
  | .number number => .int number
  | .string text => .str text
  | .array items => .list (itemsOfJson items)
  | .object fields => .dict (fieldsOfJson fields)

/-- The items of an array as values. -/
def itemsOfJson : List Json → List Value
  | [] => []
  | item :: items => Value.ofJson item :: itemsOfJson items

/-- The fields of an object as those of a dict. -/
def fieldsOfJson : List (String × Json) → Fields
  | [] => []
  | (key, value) :: fields => (key, Value.ofJson value) :: fieldsOfJson fields

end

/-- The white space of a text, which is on a single line unless an indentation is given. -/
def spacing : Option Nat → Spacing
  | none => .line
  | some step => .indent step

/-- A value as a text. -/
def dumps (value : Value) (indent : Option Nat := none) : Except Failure String := do
  let json ← value.json
  return String.ofList (json.text (spacing indent) 0)

/-- The value of a text. -/
def loads (text : String) : Except Failure Value :=
  match readJson text.toList with
  | some json => .ok (.ofJson json)
  | none => .error (.valueError "not a JSON document")

end Values

section Traces

/-- The text of a trace file, with a line for each dict. -/
def linesText (lines : List Fields) : Except Failure String := do
  let texts ← lines.mapM fun fields => dumps (.dict fields)
  return joinText '\n' texts ++ "\n"

/-- The text of the file that a trace is written to. -/
def Script.text (t : Script) : Except Failure String := linesText t.toLines

/-- The dict of a line. -/
def readLine (line : List Char) : Except Failure Fields := do
  let value ← loads (String.ofList line)
  value.fields

/-- The dicts of the lines of a trace file. -/
def readTrace (text : String) : Except Failure (List Fields) :=
  (splitLines text.toList).mapM readLine

end Traces

end Zmux
