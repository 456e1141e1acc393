import Zmux.Codec.FrameDict
import Zmux.Wire.Tally

/-! Placeholders in frames, and the builder that counts the bytes of a trace. -/

namespace Zmux

open Wire

mutual

/-- Whether a value holds a placeholder, which is a dict with a key of its own. -/
def Value.hasPlaceholder : Value → Bool
  | .dict fields => hasField fields "$sent" || fieldsHavePlaceholder fields
  | .list items => itemsHavePlaceholder items
  | .none | .bool _ | .int _ | .str _ | .bytes _ => false

/-- Whether a placeholder stands somewhere in the fields. -/
def fieldsHavePlaceholder : Fields → Bool
  | [] => false
  | (_, value) :: fields => value.hasPlaceholder || fieldsHavePlaceholder fields

/-- Whether a placeholder stands somewhere in the items. -/
def itemsHavePlaceholder : List Value → Bool
  | [] => false
  | item :: items => item.hasPlaceholder || itemsHavePlaceholder items

end

/-- The value that stands in for a placeholder where only lengths matter. -/
def placeholderStandin : Nat := 1 <<< 14

mutual

/-- A value with every placeholder replaced by the same number. -/
def Value.standIn : Value → Value
  | .dict fields =>
    if hasField fields "$sent" then .nat placeholderStandin else .dict (fieldsStandIn fields)
  | .list items => .list (itemsStandIn items)
  | .none => .none
  | .bool flag => .bool flag
  | .int number => .int number
  | .str text => .str text
  | .bytes data => .bytes data

/-- The fields with a number for each placeholder. -/
def fieldsStandIn : Fields → Fields
  | [] => []
  | (key, value) :: fields => (key, value.standIn) :: fieldsStandIn fields

/-- The items with a number for each placeholder. -/
def itemsStandIn : List Value → List Value
  | [] => []
  | item :: items => item.standIn :: itemsStandIn items

end

/-- The length of records whose placeholders are filled in later. -/
def placeholderRecordLen (records : Value) : Except Failure Nat := do
  let bytes ← recordBytesDict records.standIn
  return bytes.length

/-- The bytes sent on a lane of a pipe so far, and some more, to be filled in later. -/
def sent (pipe : Nat) (plus lane : Nat := 0) : Value :=
  -- Only the parts that are not zero are written.
  .dict ([("$sent", .nat pipe)] ++ (if lane ≠ 0 then [("lane", .nat lane)] else [])
    ++ if plus ≠ 0 then [("plus", .nat plus)] else [])

/-- What bytes are delivered to: a pipe, if one is given, or a carrier. -/
inductive Target where
  | pipe (id : Option Nat)
  | carrier (name : String)
  deriving DecidableEq, Repr

/-- The target of a call that names a pipe and perhaps a carrier. -/
def target (pipe : Option Nat) (carrier : Option String) : Target :=
  match carrier with
  | none => .pipe pipe
  | some name => .carrier name

/-- A step in which the peer delivers bytes. -/
structure Step where
  target : Target
  records : Option Value
  invalid : Bool
  hex : Option Bytes
  messages : Option Value
  messagesHex : Option (List String)
  chunks : List Nat

/-- A trace with its steps, and the bytes the peer has delivered by then. -/
structure Trace where
  steps : List Step
  peerSent : Tally Target

/-- A trace without steps. -/
def Trace.fresh : Trace := ⟨[], Tally.empty⟩

/-- The first frame of the first record, or nothing where there is none. -/
def firstFrame : Value → Fields
  | .list (.list (.dict fields :: _) :: _) => fields
  | _ => []

/-- What the bytes of records with placeholders are counted under. -/
def countedUnder (target : Target) (records : Value) : Except Failure Target :=
  match target with
  | .pipe (some id) => .ok (.pipe (some id))
  | other =>
    let first := firstFrame records
    -- The frame that opens a pipe names it, and then the carrier is not asked.
    if (first.lookup "type").bind Value.text = some FrameName.pipeJoin.text then do
      let pipe ← entry first "pipe"
      match pipe.natural with
      | some id => return .pipe (some id)
      -- A join of no pipe is not encoded either.
      | none => .error .typeError
    else .ok other

/-- Append a step, counting its bytes if that was left to the runner. -/
def Trace.add (t : Trace) (step : Step) : Except Failure Trace :=
  match step.hex, step.records with
  | none, some records =>
    if records.hasPlaceholder then do
      let key ← countedUnder step.target records
      let length ← placeholderRecordLen records
      return ⟨t.steps ++ [step], t.peerSent.add key length⟩
    else .ok ⟨t.steps ++ [step], t.peerSent⟩
  | _, _ => .ok ⟨t.steps ++ [step], t.peerSent⟩

/-- Deliver records, given as lists of dicts, on a pipe or on a carrier. -/
def Trace.send (t : Trace) (pipe : Option Nat) (records : List (List Value))
    (chunks : List Nat := []) (invalid : Bool := false) (carrier : Option String := none) :
    Except Failure Trace :=
  let recs := Value.list (records.map .list)
  let key := target pipe carrier
  if recs.hasPlaceholder then
    t.add ⟨key, some recs, invalid, none, none, none, chunks⟩
  else do
    let b ← recordBytesDict recs
    Trace.add { t with peerSent := t.peerSent.add key b.length }
      ⟨key, some recs, invalid, some b, none, none, chunks⟩

/-- The sum of the positions that messages count for. -/
def sumPositions (messages : List Bytes) : Except Failure Nat := do
  let counts ← messages.mapM messagePosition
  return counts.sum

/-- Deliver whole messages, given as lists of dicts or as bytes. -/
def Trace.sendMessages (t : Trace) (pipe : Option Nat) (messages : List (List Value))
    (raw : Option (List Bytes) := none) (carrier : Option String := none) :
    Except Failure Trace :=
  let key := target pipe carrier
  match raw with
  | some raw => do
    let count ← sumPositions raw
    Trace.add { t with peerSent := t.peerSent.add key count }
      ⟨key, none, false, none, none, some (raw.map hexText), []⟩
  | none => do
    let msgs := messages.map Value.list
    let enc ← msgs.mapM encodeFramesDict
    let count ← sumPositions enc
    Trace.add { t with peerSent := t.peerSent.add key count }
      ⟨key, none, false, none, some (.list msgs), some (enc.map hexText), []⟩

/-- Deliver bytes as they are. -/
def Trace.raw (t : Trace) (pipe : Option Nat) (b : Bytes) (chunks : List Nat := [])
    (carrier : Option String := none) : Except Failure Trace :=
  let key := target pipe carrier
  Trace.add { t with peerSent := t.peerSent.add key b.length }
    ⟨key, none, false, some b, none, none, chunks⟩

/-- A call that delivers bytes of the peer. -/
inductive Call where
  | send (pipe : Option Nat) (records : List (List Value)) (chunks : List Nat) (invalid : Bool)
      (carrier : Option String)
  | sendMessages (pipe : Option Nat) (messages : List (List Value)) (raw : Option (List Bytes))
      (carrier : Option String)
  | raw (pipe : Option Nat) (b : Bytes) (chunks : List Nat) (carrier : Option String)

/-- What a call of the peer does. -/
def Call.apply (t : Trace) : Call → Except Failure Trace
  | send pipe records chunks invalid carrier => t.send pipe records chunks invalid carrier
  | sendMessages pipe messages given carrier => t.sendMessages pipe messages given carrier
  | raw pipe b chunks carrier => t.raw pipe b chunks carrier

/-- A sequence of calls, the first of which that raises ends the run. -/
def runCalls : List Call → Trace → Except Failure Trace
  | [], t => .ok t
  | call :: calls, t => do
    let t ← call.apply t
    runCalls calls t

end Zmux
