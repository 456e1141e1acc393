import Zmux.Codec.Varint
import Zmux.Wire.HexText

/-! Frame dicts and trace steps as JSON, with byte strings in hexadecimal. -/

namespace Zmux

open Wire

/-- A value that frames and steps are made of, and its JSON form when it holds no byte string. -/
inductive Value where
  | none
  | bool (flag : Bool)
  | int (number : Int)
  | str (text : String)
  | bytes (data : Bytes)
  | list (items : List Value)
  /-- The keys of a dict are in the order in which they were set. -/
  | dict (fields : List (String × Value))

/-- The fields of a dict. -/
abbrev Fields := List (String × Value)

/-- The fields whose text is read back as bytes. -/
def bytesFields : List String :=
  ["data", "reason", "token", "locator", "mac", "raw", "bytes", "nonce_bytes", "lane_key"]

mutual

/-- A byte string becomes its text wherever it stands, and everything else stays. -/
def Value.toJson : Value → Value
  | .dict fields => .dict (fieldsToJson fields)
  | .list items => .list (itemsToJson items)
  | .bytes data => .str (hexText data)
  | .none => .none
  | .bool flag => .bool flag
  | .int number => .int number
  | .str text => .str text

/-- The values of fields become their JSON forms, under the same keys. -/
def fieldsToJson : Fields → Fields
  | [] => []
  | (key, value) :: fields => (key, value.toJson) :: fieldsToJson fields

/-- The items of a list become their JSON forms. -/
def itemsToJson : List Value → List Value
  | [] => []
  | item :: items => item.toJson :: itemsToJson items

end

/-- The bytes that a text stands for. -/
def fromHex (text : String) : Except Failure Bytes :=
  match readHex text.toList with
  | some data => .ok data
  | none => .error (.valueError "non-hexadecimal number found in fromhex() arg")

/-- The bytes that a value stands for, which must be a text. -/
def Value.fromHex : Value → Except Failure Bytes
  | .str text => Zmux.fromHex text
  | _ => .error .typeError

/-- A dict with a field set, in its place when the key is there already. -/
def setField : Fields → String → Value → Fields
  | [], key, value => [(key, value)]
  | (other, held) :: fields, key, value =>
    if other = key then (key, value) :: fields
    else (other, held) :: setField fields key value

/-- Whether a dict has a key. -/
def hasField (fields : Fields) (key : String) : Bool := fields.any fun field => field.1 = key

/-- The nonce of a multipath value, which may be bytes already. -/
def nonceFromJson (nonce : Value) : Except Failure Value :=
  match nonce with
  | .str text => (fromHex text).map .bytes
  | other => .ok other

/-- The value of a multipath parameter, whose nonce is not known by its name alone. -/
def multipathFromJson (value : Fields) : Except Failure Value := do
  let locator ← entry value "locator"
  let locator ← locator.fromHex
  let nonce ← entry value "nonce"
  let nonce ← nonceFromJson nonce
  return .dict (setField (setField value "locator" (.bytes locator)) "nonce" nonce)

/-- What stands under a key, where `inside` is what the value is read as when the key is no clue. -/
def fieldFromJson (key : String) (value : Value) (inside : Except Failure Value) :
    Except Failure Value :=
  match value with
  | .str text => if key ∈ bytesFields then (fromHex text).map .bytes else inside
  | .dict fields =>
    if key = "value" ∧ hasField fields "locator" = true then multipathFromJson fields else inside
  | _ => inside

mutual

/-- The value that a JSON form stands for. -/
def Value.fromJson : Value → Except Failure Value
  | .dict fields => (fieldsFromJson fields).map .dict
  | .list items => (itemsFromJson items).map .list
  | .none => .ok .none
  | .bool flag => .ok (.bool flag)
  | .int number => .ok (.int number)
  | .str text => .ok (.str text)
  | .bytes data => .ok (.bytes data)

/-- The fields that those of a JSON form stand for. -/
def fieldsFromJson : Fields → Except Failure Fields
  | [] => .ok []
  | (key, value) :: fields => do
    let head ← fieldFromJson key value value.fromJson
    let tail ← fieldsFromJson fields
    return (key, head) :: tail

/-- The items that those of a JSON form stand for. -/
def itemsFromJson : List Value → Except Failure (List Value)
  | [] => .ok []
  | item :: items => do
    let head ← item.fromJson
    let tail ← itemsFromJson items
    return head :: tail

end

end Zmux
