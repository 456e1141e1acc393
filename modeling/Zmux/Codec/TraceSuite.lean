import Zmux.Codec.TraceCheck
import Zmux.Wire.Tables

/-! The suite of all traces: its files, their index and inventory, and the check of the whole. -/

namespace Zmux

open Wire

section Build

/-- The traces of all groups, unless two of them have the same id. -/
def allTraces (groups : List (List Script)) : Option (List Script) :=
  let traces := groups.flatten
  let ids := traces.map fun t => t.header.id
  if (ids.filter fun id => ids.count id > 1) = [] then some traces else none

/-- What the index says of a trace. -/
structure IndexEntry where
  id : String
  file : Path
  title : String
  refs : List String
  profile : String
  steps : Nat

/-- The files of traces with their lines, and the index of them. -/
structure Suite where
  files : List (Path × List Fields)
  index : List IndexEntry

/-- The directory of traces, as it is seen from above. -/
def tracesDir : Path := ⟨false, ["fixtures", "traces"]⟩

/-- A path as it is seen from another, which must be above it. -/
def seenFrom (base path : Path) : Except Failure Path :=
  match path.relativeTo base with
  | some seen => .ok seen
  | none => .error (.valueError ("'" ++ path.text ++ "' is not in the subpath of '" ++ base.text ++ "'"))

/-- The file of a trace, whose directories are the groups of its id. -/
def traceFile (root : Path) (id : String) : Except Failure Path :=
  let parts := splitText '.' id
  let pieces := parts.dropLast ++ parts.getLast?.toList.map fun last => last ++ ".ndjson"
  let base := (root.joinpath "fixtures").joinpath "traces"
  seenFrom root (pieces.foldl Path.joinpath base)

/-- Write a trace to its file, and add its entry to the index. -/
def writeTrace (root : Path) (suite : Suite) (t : Script) : Except Failure Suite := do
  let file ← traceFile root t.header.id
  return ⟨put suite.files file t.toLines,
    suite.index ++ [⟨t.header.id, file, t.header.title, t.header.refs, t.header.profile,
      t.steps.length⟩]⟩

/-- Write traces one after the other. -/
def buildSuite (root : Path) : List Script → Suite → Except Failure Suite
  | [], suite => .ok suite
  | t :: traces, suite => do
    let suite ← writeTrace root suite t
    buildSuite root traces suite

end Build

section Inventory

/-- Whether a file is one of the traces. -/
def isTraceFile (file : Path) : Bool :=
  (file.relativeTo tracesDir).isSome &&
    file.parts.getLast?.any fun name => ".ndjson".toList.isSuffixOf name.toList

/-- The numbers of the inventory. -/
structure ManifestCounts where
  traces : Nat
  traceSteps : Nat
  tracesByGroup : List (String × Nat)

/-- How many traces and steps there are, and how many traces of each group. -/
def manifestCounts (suite : Suite) : ManifestCounts where
  traces := ((suite.files.map Prod.fst).filter isTraceFile).length
  traceSteps := (suite.index.map IndexEntry.steps).sum
  tracesByGroup :=
    let groups := countRows (fun entry : IndexEntry => (splitText '.' entry.id).headD "") suite.index
    groups.mergeSort fun first second => first.1 ≤ second.1

end Inventory

section Check

/-- What is found wrong with parameters in their JSON form, which a profile has. -/
def checkTps (name : String) (params : Value) : Except Failure (List String) := do
  let params ← params.fromJson
  return match encodeRead encodeTps (params.items Param.ofDict) >>= decodeTps with
    | .ok _ => []
    | .error fault => ["profile " ++ name ++ ": invalid transport parameters: " ++ fault.text]

/-- What is found wrong with the parameters of a profile, which are read back from their JSON form. -/
def checkProfile (name : String) (tp : Fields) : Except Failure (List String) :=
  checkTps name (Value.list (tpList tp none)).toJson

/-- The id that the path of a file stands for. -/
def expectedId (file : Path) : Except Failure String := do
  let inside ← seenFrom tracesDir file
  -- A path without a name has no suffix either.
  if inside.parts = [] then .error (.valueError (inside.text ++ " has an empty name"))
  else return joinText '.' inside.withoutSuffix.parts

/-- What is found wrong with an entry of the index and its file, if there is one. -/
def checkEntry (refOk : String → Bool) (files : List (Path × List Fields)) (entry : IndexEntry) :
    Except Failure (List String) :=
  match files.lookup entry.file with
  | none => .ok []
  | some [] => .error .indexError
  | some (head :: lines) => do
    let tid := textAt head "id"
    let expected ← expectedId entry.file
    Reports.both (.ok (reportIf (tid ≠ some expected ∨ some entry.id ≠ tid)
      ("traces: id " ++ shown tid ++ " does not match path " ++ entry.file.text)))
      (checkTrace refOk (head :: lines))

/-- What is found wrong with the suite as a whole. -/
def checkTraces (refOk : String → Bool) (suite : Suite) : Except Failure (List String) :=
  let listed := (suite.index.map IndexEntry.file).eraseDups
  let files := (suite.files.map Prod.fst).filter isTraceFile
  let unlisted := (files.filter fun file => file ∉ listed).map fun file =>
    "traces: " ++ file.text ++ " not in index.json"
  let missing := (listed.filter fun file => file ∉ files).map fun file =>
    "traces: index.json lists missing " ++ file.text
  Reports.both (Reports.each (fun row => checkProfile row.1 row.2) profiles)
    (Reports.both (.ok (unlisted ++ missing))
      (Reports.both (Reports.each (checkEntry refOk suite.files) suite.index)
        (.ok (reportIf (suite.index.length < 100)
          ("traces: only " ++ toString suite.index.length ++ " traces")))))

end Check

end Zmux
