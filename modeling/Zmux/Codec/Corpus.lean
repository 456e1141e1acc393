import Zmux.Codec.FrameDict
import Zmux.Wire.Reports

/-! The wire corpus: what its builder writes, and what `check_corpus` finds wrong with it. -/

namespace Zmux

open Wire

mutual

/-- Whether two values are equal, where dicts are compared by what stands under their keys. -/
def Value.same : Value → Value → Bool
  | .none, .none => true
  | .bool flag, .bool other => flag == other
  -- A truth value is the number one or zero.
  | .bool flag, .int number => number == (if flag then 1 else 0)
  | .int number, .bool flag => number == (if flag then 1 else 0)
  | .int number, .int other => number == other
  | .str text, .str other => text == other
  | .bytes data, .bytes other => data == other
  | .list items, .list others => itemsSame items others
  | .dict fields, .dict others => fields.length == others.length && fieldsSame fields others
  | _, _ => false

/-- Whether every field of the first dict has the same value in the second. -/
def fieldsSame : Fields → Fields → Bool
  | [], _ => true
  | (key, value) :: fields, others =>
    (match others.lookup key with
      | some other => value.same other
      | none => false) && fieldsSame fields others

/-- Items are equal one by one. -/
def itemsSame : List Value → List Value → Bool
  | [], [] => true
  | item :: items, other :: others => item.same other && itemsSame items others
  | _, _ => false

end

/-- The gates of the registry, each of which is listed once. -/
def allGates : List TpName := (frameTypes.flatMap fun row => row.gate.names).eraseDups

/-- What a valid entry gives to decode, and what it is said to stand for. -/
inductive ValidContent where
  | frame (hex : String) (frame : Value) (nonMinimal : Bool)
  | record (hex : String) (record : Value)
  | messages (messages : List String) (positions : List Nat)

/-- An entry that is to be accepted, under gates and perhaps a limit of datagrams. -/
structure ValidEntry where
  id : String
  gates : List TpName
  limits : Option Nat
  content : ValidContent

/-- What an invalid entry gives to decode. -/
inductive InvalidContent where
  | frame (hex : String)
  | record (hex : String)
  | messages (messages : List String) (maxRecordSize : Option Nat)

/-- An entry that is to be refused, with the name of the error it is refused with. -/
structure InvalidEntry where
  id : String
  gates : List TpName
  limits : Option Nat
  error : String
  content : InvalidContent

/-- The entries of the corpus, in the order in which they were added. -/
structure Corpus where
  valid : List ValidEntry
  invalid : List InvalidEntry

section Build

/-- Append a valid entry. -/
def Corpus.accept (c : Corpus) (e : ValidEntry) : Corpus := { c with valid := c.valid ++ [e] }

/-- Append an invalid entry. -/
def Corpus.refuse (c : Corpus) (e : InvalidEntry) : Corpus := { c with invalid := c.invalid ++ [e] }

/-- The gates of a valid entry, where no gate at all stands for all of them as a missing argument does. -/
def gatesOr (gates : Option (List TpName)) : List TpName :=
  if gates.getD [] = [] then allGates else gates.getD []

/-- Add a frame that is encoded in its shortest spelling. -/
def Corpus.ok (c : Corpus) (cid : String) (frame : Value) (gates : Option (List TpName) := none)
    (limits : Option Nat := none) : Except Failure Corpus := do
  let b ← encodeFrameDict frame
  return c.accept ⟨cid, gatesOr gates, limits, .frame (hexText b) frame.toJson false⟩

/-- Add bytes that are a longer spelling of a frame. -/
def Corpus.okNonMinimal (c : Corpus) (cid : String) (bytes : Bytes) (frame : Value) : Corpus :=
  c.accept ⟨cid, allGates, none, .frame (hexText bytes) frame.toJson true⟩

/-- The bytes of a record that is given as a list of dicts. -/
def encodeRecordDict (frames : Value) : Except Failure Bytes :=
  encodeRead (fun frames => encodeRecord frames) (framesOf frames)

/-- Add a record of frames. -/
def Corpus.okrec (c : Corpus) (cid : String) (frames : Value) : Except Failure Corpus := do
  let b ← encodeRecordDict frames
  return c.accept ⟨cid, allGates, none, .record (hexText b) frames.toJson⟩

/-- A message, as a list of dicts or as bytes. -/
inductive MessageForm where
  | frames (frames : Value)
  | bytes (data : Bytes)

/-- The bytes of a message, encoded or given. -/
def MessageForm.encoded : MessageForm → Except Failure Bytes
  | frames given => encodeFramesDict given
  | bytes data => .ok data

/-- Add messages with the positions that they count for. -/
def Corpus.okmsg (c : Corpus) (cid : String) (messages : List MessageForm) :
    Except Failure Corpus := do
  let enc ← messages.mapM MessageForm.encoded
  let positions ← enc.mapM messagePosition
  return c.accept ⟨cid, allGates, none, .messages (enc.map hexText) positions⟩

/-- The kinds of entries whose bytes are given as one string. -/
inductive BytesKind where
  | frame
  | record
  deriving DecidableEq, Repr

/-- Add bytes that must be refused with an error. -/
def Corpus.bad (c : Corpus) (cid : String) (bytes : Bytes) (error : String)
    (kind : BytesKind := .frame) (gates : Option (List TpName) := none)
    (limits : Option Nat := none) : Corpus :=
  let content := match kind with
    | .frame => InvalidContent.frame (hexText bytes)
    | .record => InvalidContent.record (hexText bytes)
  -- Here no gate at all means that every gated frame is refused.
  c.refuse ⟨cid, gates.getD allGates, limits, error, content⟩

/-- Add messages one of which must be refused with an error. -/
def Corpus.badmsg (c : Corpus) (cid : String) (messages : List Bytes) (error : String)
    (maxRecordSize : Option Nat := none) : Corpus :=
  c.refuse ⟨cid, allGates, none, error, .messages (messages.map hexText) maxRecordSize⟩

/-- A call that adds an entry to the corpus. -/
inductive CorpusCall where
  | ok (cid : String) (frame : Value) (gates : Option (List TpName)) (limits : Option Nat)
  | okNonMinimal (cid : String) (bytes : Bytes) (frame : Value)
  | okrec (cid : String) (frames : Value)
  | okmsg (cid : String) (messages : List MessageForm)
  | bad (cid : String) (bytes : Bytes) (error : String) (kind : BytesKind)
      (gates : Option (List TpName)) (limits : Option Nat)
  | badmsg (cid : String) (messages : List Bytes) (error : String) (maxRecordSize : Option Nat)

/-- What a call of the builder adds to the corpus. -/
def CorpusCall.apply (c : Corpus) : CorpusCall → Except Failure Corpus
  | ok cid frame gates limits => c.ok cid frame gates limits
  | okNonMinimal cid bytes frame => .ok (c.okNonMinimal cid bytes frame)
  | okrec cid frames => c.okrec cid frames
  | okmsg cid messages => c.okmsg cid messages
  | bad cid bytes error kind gates limits => .ok (c.bad cid bytes error kind gates limits)
  | badmsg cid messages error maxRecordSize => .ok (c.badmsg cid messages error maxRecordSize)

/-- The corpus that calls write, the first of which that raises ends the run. -/
def buildCorpus : List CorpusCall → Corpus → Except Failure Corpus
  | [], c => .ok c
  | call :: calls, c => do
    let c ← call.apply c
    buildCorpus calls c

end Build

section Check

/-- The report about a valid entry that a decoder refuses, where any other failure ends the run. -/
def reportRefusal (id : String) (reports : Except Failure (List String)) :
    Except Failure (List String) :=
  match reports with
  | .error (.decodeError code reason) =>
    .ok ["corpus: valid " ++ id ++ " rejected: " ++ code.text ++ ": " ++ reason]
  | other => other

/-- What is found wrong with a description, which should be encoded to some bytes. -/
def checkDescription (frame : Value) (b : Bytes) (report : String) :
    Except Failure (List String) := do
  let described ← frame.fromJson
  let encoded ← encodeFrameDict described
  return reportIf (encoded ≠ b) report

/-- What is found wrong with a frame that is decoded from bytes, and with its description. -/
def checkFrame (id : String) (b : Bytes) (gates : Gates) (limits : Option Nat) (f : Frame)
    (frame : Value) (nonMinimal : Bool) : Except Failure (List String) := do
  let b2 ← encodeFrame f
  if nonMinimal then
    let (f2, _) ← decodeFrame b2 0 b2.length gates limits
    let unequal := "corpus: " ++ id ++ ": not semantically equal after re-encoding"
    let mismatch := "corpus: " ++ id ++ ": JSON does not match the decoded frame"
    -- The bytes must become fewer, and stand for the same frame.
    let first ← if b2.length ≥ b.length ∨ ¬ f2.dict.toJson.same f.dict.toJson then
        pure [unequal]
      else do
        let again ← encodeFrame f2
        pure (reportIf (again ≠ b2) unequal)
    let second ← if ¬ f.dict.toJson.same frame then pure [mismatch]
      else checkDescription frame b2 mismatch
    return first ++ second
  else
    let second ← checkDescription frame b ("corpus: " ++ id ++ ": JSON does not encode to hex")
    return reportIf (b2 ≠ b) ("corpus: " ++ id ++ ": re-encode mismatch") ++ second

/-- What is found wrong with the messages of an entry, up to the first that is refused. -/
def checkMessages (id : String) (gates : Gates) : List (String × Nat) →
    Except Failure (List String)
  | [] => .ok []
  | (m, pos) :: others => reportRefusal id do
    let mb ← fromHex m
    let frames ← decodeMessage mb Limits.zmuxMaxRecordSize gates
    let again ← encodeFrames frames
    let position ← messagePosition mb
    let reports ← checkMessages id gates others
    return reportIf (again ≠ mb) ("corpus: " ++ id ++ ": message round trip failed")
      ++ reportIf (position ≠ pos) ("corpus: " ++ id ++ ": wrong position for a message") ++ reports

/-- What is found wrong with a valid entry. -/
def checkValid (e : ValidEntry) : Except Failure (List String) :=
  match e.content with
  | .frame hex frame nonMinimal => do
    let b ← fromHex hex
    reportRefusal e.id do
      let (f, stop) ← decodeFrame b 0 b.length (some e.gates) e.limits
      -- This error has a code of its own, which is none of the protocol.
      if stop ≠ b.length then return ["corpus: valid " ++ e.id ++ " rejected: X: trailing bytes"]
      else checkFrame e.id b (some e.gates) e.limits f frame nonMinimal
  | .messages messages positions =>
    checkMessages e.id (some e.gates) (messages.zip positions)
  | .record hex _ => do
    let b ← fromHex hex
    reportRefusal e.id do
      let failed := "corpus: " ++ e.id ++ ": record round trip failed"
      match ← decodeRecord b 0 Limits.zmuxMaxRecordSize (some e.gates) with
      | (none, _) => return [failed]
      | (some frames, stop) =>
        if stop ≠ b.length then return [failed]
        else
          let again ← encodeRecord frames
          return reportIf (again ≠ b) failed

/-- Decode what an invalid entry gives, for the error alone. -/
def InvalidContent.decode (gates : Gates) (limits : Option Nat) :
    InvalidContent → Except Failure Unit
  | frame hex => do
    let b ← fromHex hex
    let _ ← decodeFrame b 0 b.length gates limits
  | record hex => do
    let b ← fromHex hex
    let _ ← decodeStream b Limits.zmuxMaxRecordSize gates
  | messages listed maxRecordSize =>
    listed.forM fun m => do
      let mb ← fromHex m
      let _ ← decodeMessage mb (maxRecordSize.getD Limits.zmuxMaxRecordSize) gates

/-- What is found wrong with an invalid entry. -/
def checkInvalid (e : InvalidEntry) : Except Failure (List String) := do
  let reports ← match e.content.decode (some e.gates) e.limits with
    | .ok () => .ok ["corpus: invalid " ++ e.id ++ " was accepted"]
    | .error (.decodeError code _) => .ok (reportIf (code.text ≠ e.error)
        ("corpus: invalid " ++ e.id ++ ": got " ++ code.text ++ ", expected " ++ e.error))
    | .error fault => .error fault
  return reports ++ reportIf (e.error ∉ transportErrors.map fun row => row.1.text)
    ("corpus: " ++ e.id ++ " names unknown error " ++ e.error)

/-- Everything that is found wrong with a corpus, entry by entry. -/
def checkCorpus (c : Corpus) : Except Failure (List String) :=
  Reports.both (Reports.each checkValid c.valid) (Reports.each checkInvalid c.invalid)

end Check

end Zmux
