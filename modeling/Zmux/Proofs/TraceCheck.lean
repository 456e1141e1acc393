import Zmux.Codec.TraceCheck
import Zmux.Proofs.Corpus

/-! Traces and their check agree: what the builder writes is found right exactly when its calls are. -/

namespace Zmux

open Wire

section Fields

variable {key : String} {value : Value} {fields others : Fields}

/-- A dict without fields has no key. -/
@[simp] theorem hasField_nil : hasField [] key = false := rfl

/-- A key is that of the first field, or one behind it. -/
@[simp] theorem hasField_cons {other : String} :
    hasField ((other, value) :: fields) key = (decide (other = key) || hasField fields key) := rfl

/-- The keys of two dicts together are those of both. -/
@[simp] theorem hasField_append :
    hasField (fields ++ others) key = (hasField fields key || hasField others key) :=
  List.any_append

/-- A field that may be left out is there when its value is given. -/
@[simp] theorem hasField_optional {α : Type} {other : String} {form : α → Value}
    {value : Option α} :
    hasField (optional other form value) key = (value.isSome && decide (other = key)) := by
  cases value <;> simp [optional]

/-- The first field with a key is the one that is found. -/
@[simp] theorem lookup_field {other : String} : List.lookup key ((other, value) :: fields) =
    if key = other then some value else fields.lookup key := by
  rw [List.lookup_cons]
  split <;> simp_all

/-- A key is looked up in the front fields first. -/
@[simp] theorem lookup_both :
    List.lookup key (fields ++ others) = (fields.lookup key).or (others.lookup key) := by
  -- The induction is on the front fields, each of which is passed over or found.
  induction fields with
  | nil => rfl
  | cons field fields ih =>
    rw [List.cons_append, lookup_field, lookup_field, ih]
    split <;> rfl

/-- A number is written as it is. -/
@[simp] theorem toJson_nat (number : Nat) : (Value.nat number).toJson = .nat number := rfl

/-- A text is written as it is. -/
@[simp] theorem toJson_str (text : String) : (Value.str text).toJson = .str text := rfl

/-- No value is written as it is. -/
@[simp] theorem toJson_none : Value.none.toJson = .none := rfl

/-- A flag is written as it is. -/
@[simp] theorem toJson_bool (flag : Bool) : (Value.bool flag).toJson = .bool flag := rfl

/-- A number is no text. -/
@[simp] theorem text_nat (number : Nat) : (Value.nat number).text = none := rfl

/-- The text of a text is itself. -/
@[simp] theorem text_str (text : String) : (Value.str text).text = some text := rfl

/-- A number that counts is an integer. -/
@[simp] theorem integer_nat (number : Nat) : (Value.nat number).integer = some (number : Int) := rfl

/-- A field that may be left out is found under its own key, when its value is given. -/
@[simp] theorem lookup_optional {α : Type} {other : String} {form : α → Value} {value : Option α} :
    (optional other form value).lookup key = if key = other then value.map form else none := by
  cases value with
  | none => simp [optional]
  | some value =>
    rw [optional, List.lookup_cons]
    split <;> simp_all

/-- A value of a dict becomes its JSON form, under the same key. -/
theorem lookup_toJson (fields : Fields) (key : String) :
    (fieldsToJson fields).lookup key = (fields.lookup key).map Value.toJson := by
  -- The induction is on the fields, whose keys stay as they are.
  induction fields with
  | nil => rfl
  | cons field fields ih =>
    obtain ⟨other, value⟩ := field
    rw [fieldsToJson, List.lookup_cons, List.lookup_cons]
    split
    · rfl
    · exact ih

/-- The line of a step with its number. -/
def stepLine (i : Nat) (fields : Fields) : Fields := fieldsToJson (("step", .nat i) :: fields)

/-- Any other field of a line is found where it was given. -/
theorem lookup_line {i : Nat} (other : key ≠ "step") :
    (stepLine i fields).lookup key = (fields.lookup key).map Value.toJson := by
  rw [stepLine, lookup_toJson, List.lookup_cons, beq_eq_false_iff_ne.mpr other]

/-- A line has the fields that were given, beside its number. -/
theorem hasField_line {i : Nat} (other : key ≠ "step") :
    hasField (stepLine i fields) key = hasField fields key := by
  rw [stepLine, hasField_toJson, hasField_cons, decide_eq_false_iff_not.mpr other.symm,
    Bool.false_or]

end Fields

section Common

variable {op : String} {required allowed binds : List String} {i : Nat} {rest : Fields}

/-- What is checked of every step: its fields, its target, its lane, its direction, and how it ends. -/
def CommonChecks (op : String) (required allowed : List String) (rest : Fields) : Prop :=
  (∀ key ∈ required, hasField rest key = true) ∧
  EveryField (fun key _ => key ∈ required ++ allowed) rest ∧
  (op ∈ ["pipe_up", "pipe_down", "peer_send"] → hasField rest "pipe" ≠ hasField rest "carrier") ∧
  (op ∈ ["expect_frames", "expect_no_frames", "pipe_down", "expect_pipe_closed"] →
    ∀ lane, rest.lookup "lane" = some lane →
      ((rest.lookup "pipe").getD (.str "*")).toJson.text ≠ some "*" ∧
        ∃ number ∈ lane.toJson.integer, 1 ≤ number) ∧
  (op ∈ ["pipe_up", "pipe_down", "expect_pipe_closed"] →
    ((rest.lookup "dir").map Value.toJson).bind Value.text ∈ ["in", "out", "bidi"].map some) ∧
  (op = "pipe_down" →
    ((rest.lookup "how").map Value.toJson).bind Value.text ∈ ["eof", "error"].map some)

/-- The row of an operation is the only one with its name. -/
theorem ops_find : ∀ row ∈ ops, ops.find? (fun other => some row.1 = some other.1) = some row := by
  -- The table is short enough to be gone through row by row.
  decide +kernel

/-- No operation asks for a field that every line has. -/
theorem ops_required : ∀ row ∈ ops, ∀ key ∈ row.2.1, key ≠ "step" ∧ key ≠ "op" := by
  decide +kernel

/-- The line of an operation with the rest of its fields. -/
abbrev opLine (i : Nat) (op : String) (rest : Fields) : Fields :=
  stepLine i (("op", .str op) :: rest)

/-- A field of an operation is found where it was given. -/
theorem lookup_opLine {key : String} (other : key ≠ "step") (more : key ≠ "op") :
    (opLine i op rest).lookup key = (rest.lookup key).map Value.toJson := by
  -- The number and the name of the operation are passed over.
  rw [lookup_line other, List.lookup_cons, beq_eq_false_iff_ne.mpr more]

/-- An operation has the fields that were given, beside the two that every line has. -/
theorem hasField_opLine {key : String} (other : key ≠ "step") (more : key ≠ "op") :
    hasField (opLine i op rest) key = hasField rest key := by
  rw [hasField_line other, hasField_cons, decide_eq_false_iff_not.mpr more.symm, Bool.false_or]

/-- A field that must be there is taken from where it was given. -/
theorem entry_opLine {key : String} {value : Value} (other : key ≠ "step") (more : key ≠ "op")
    (found : rest.lookup key = some value) : entry (opLine i op rest) key = .ok value.toJson := by
  rw [entry, lookup_opLine other more, found, Option.map_some]

/-- The text of a field is that of the value that was given. -/
theorem textAt_opLine {key : String} (other : key ≠ "step") (more : key ≠ "op") :
    textAt (opLine i op rest) key = ((rest.lookup key).map Value.toJson).bind Value.text := by
  rw [textAt, lookup_opLine other more]

/-- The fields of an operation are right when all are there that it asks for, and no others. -/
theorem checkSchema_eq_nil (row : (op, required, allowed) ∈ ops)
    (plain : EveryField (fun key _ => key ≠ "step" ∧ key ≠ "op") rest) :
    checkSchema op required allowed (opLine i op rest) = [] ↔
      (∀ key ∈ required, hasField rest key = true) ∧
        EveryField (fun key _ => key ∈ required ++ allowed) rest := by
  -- The line has its own two keys, and those that were given.
  have keys : (opLine i op rest).map Prod.fst = "step" :: "op" :: rest.map Prod.fst := by
    rw [opLine, stepLine, keys_toJson, List.map_cons, List.map_cons]
  rw [checkSchema, List.append_eq_nil_iff, reportIf_eq_nil, reportIf_eq_nil, not_not, not_not,
    List.filter_eq_nil_iff, keys, List.filter_eq_nil_iff]
  refine and_congr ?_ ?_
  · refine forall₂_congr ?_
    intro key listed
    obtain ⟨other, more⟩ := ops_required _ row key listed
    rw [hasField_opLine other more]
    simp
  · -- The two fields that every line has are known, so only the rest is asked for.
    rw [List.forall_mem_cons, List.forall_mem_cons, List.forall_mem_map]
    simp only [decide_eq_true_eq, not_not, List.append_assoc, List.mem_append, List.mem_cons,
      List.not_mem_nil, or_false, true_or, or_true, true_and, EveryField]
    refine forall₂_congr ?_
    intro field listed
    obtain ⟨other, more⟩ := plain field listed
    simp [other, more]

/-- A target is right when there is either a pipe or a carrier. -/
theorem checkTarget_eq_nil : checkTarget op (opLine i op rest) = [] ↔
    (op ∈ ["pipe_up", "pipe_down", "peer_send"] → hasField rest "pipe" ≠ hasField rest "carrier") := by
  rw [checkTarget, reportIf_eq_nil, hasField_opLine (by decide) (by decide),
    hasField_opLine (by decide) (by decide), not_and]

/-- A lane is right when it is counted from one, on one pipe. -/
theorem checkLane_eq_nil : checkLane op (opLine i op rest) = [] ↔
    (op ∈ ["expect_frames", "expect_no_frames", "pipe_down", "expect_pipe_closed"] →
      ∀ lane, rest.lookup "lane" = some lane →
        ((rest.lookup "pipe").getD (.str "*")).toJson.text ≠ some "*" ∧
          ∃ number ∈ lane.toJson.integer, 1 ≤ number) := by
  -- A line without a pipe is read as one for any pipe.
  have star : ((rest.lookup "pipe").map Value.toJson).getD (.str "*") =
      ((rest.lookup "pipe").getD (.str "*")).toJson := by
    cases rest.lookup "pipe" <;> rfl
  rw [checkLane, lookup_opLine (by decide) (by decide), lookup_opLine (by decide) (by decide), star]
  cases rest.lookup "lane" with
  | none => simp
  | some lane => simp [reportIf_eq_nil, not_or]

/-- A direction is right when it is one of three, where an operation has it. -/
theorem checkDir_eq_nil : checkDir op (opLine i op rest) = [] ↔
    (op ∈ ["pipe_up", "pipe_down", "expect_pipe_closed"] →
      ((rest.lookup "dir").map Value.toJson).bind Value.text ∈ ["in", "out", "bidi"].map some) := by
  rw [checkDir, reportIf_eq_nil, textAt, lookup_opLine (by decide) (by decide), not_and, not_not]

/-- The end of a pipe is right when it is one of two. -/
theorem checkHow_eq_nil : checkHow op (opLine i op rest) = [] ↔
    (op = "pipe_down" →
      ((rest.lookup "how").map Value.toJson).bind Value.text ∈ ["eof", "error"].map some) := by
  rw [checkHow, reportIf_eq_nil, textAt, lookup_opLine (by decide) (by decide), not_and, not_not]

/-- A step is right when its fields are, and what is checked of its operation. -/
theorem checkStep_eq_nil (row : (op, required, allowed) ∈ ops)
    (plain : EveryField (fun key _ => key ≠ "step" ∧ key ≠ "op") rest) :
    checkStep binds i (opLine i op rest) = .ok [] ↔ CommonChecks op required allowed rest ∧
      checkOperation op binds (opLine i op rest) = .ok [] := by
  -- The row of the operation is found by its name, and the number is the one that was asked for.
  have named : textAt (opLine i op rest) "op" = some op := by
    rw [textAt, lookup_line (by decide), List.lookup_cons_self]
    rfl
  have numbered : (((opLine i op rest).lookup "step").getD .none).same (.nat i) = true := by
    have first : (opLine i op rest).lookup "step" = some (.nat i) := rfl
    rw [first, Option.getD_some, Value.nat, Value.same, beq_self_eq_true]
  -- The reports are those of the fields, and behind them those of the operation.
  have both := @Reports.clean_both _ _ (.ok (checkSchema op required allowed (opLine i op rest)
    ++ checkTarget op (opLine i op rest) ++ checkLane op (opLine i op rest)
    ++ checkDir op (opLine i op rest) ++ checkHow op (opLine i op rest)))
    (checkOperation op binds (opLine i op rest))
  rw [Reports.clean_ok, List.append_eq_nil_iff, List.append_eq_nil_iff, List.append_eq_nil_iff,
    List.append_eq_nil_iff, checkSchema_eq_nil row plain, checkTarget_eq_nil, checkLane_eq_nil,
    checkDir_eq_nil, checkHow_eq_nil] at both
  rw [checkStep, named, ops_find _ row]
  simp only [numbered, not_true_eq_false, reportIf, if_false, List.nil_append]
  refine both.trans (and_congr_left' ?_)
  simp only [CommonChecks, and_assoc]

end Common

section Operations

variable {binds : List String} {i : Nat}

/-- A lane is found where it is not the first, under its own key. -/
@[simp] theorem lookup_laneField (lane : Nat) (key : String) : (laneField lane).lookup key =
    if key = "lane" ∧ lane ≠ 0 then some (.nat lane) else none := by
  rw [laneField]
  split
  · rw [List.lookup_cons]
    split <;> simp_all
  · simp_all

/-- There is a lane where it is not the first. -/
@[simp] theorem hasField_laneField (lane : Nat) (key : String) :
    hasField (laneField lane) key = decide (lane ≠ 0 ∧ "lane" = key) := by
  rw [laneField]
  split <;> simp_all

/-- What holds of every field holds of the lane, where there is one. -/
@[simp] theorem everyField_laneField {P : String → Value → Prop} (lane : Nat) :
    EveryField P (laneField lane) ↔ (lane ≠ 0 → P "lane" (.nat lane)) := by
  rw [laneField]
  split <;> simp_all

variable {pipe lane : Nat} {dir how : String}

/-- An expected end of a pipe is right when its direction is. -/
theorem pipeClosed_right : checkStep binds i (opLine i "expect_pipe_closed"
    ([("pipe", .nat pipe)] ++ laneField lane ++ [("dir", .str dir), ("how", .str how)])) = .ok [] ↔
      dir ∈ ["in", "out", "bidi"] := by
  -- What is checked of every step decides, since the operation has no check of its own.
  have row : ("expect_pipe_closed", ["pipe", "dir", "how"], ["lane"]) ∈ ops := by simp [ops]
  rw [checkStep_eq_nil row (by simp)]
  simp [CommonChecks, checkOperation]
  omega

/-- The end of a pipe is right when its direction is, and the way it ends. -/
theorem down_right {pipe : Option Nat} {carrier : Option String} :
    checkStep binds i (stepLine i (downFields pipe dir how carrier lane)) = .ok [] ↔
      dir ∈ ["in", "out", "bidi"] ∧ how ∈ ["eof", "error"] := by
  have row : ("pipe_down", ["dir", "how"], ["pipe", "carrier", "lane"]) ∈ ops := by simp [ops]
  -- The end is said of a carrier, which has no lane, or of a pipe.
  cases carrier with
  | some carrier =>
    rw [downFields, checkStep_eq_nil row (by simp)]
    simp [CommonChecks, checkOperation]
  | none =>
    have number : (natOrNone pipe).toJson.text = none := by cases pipe <;> rfl
    have fields : downFields pipe dir how none lane = ("op", .str "pipe_down") ::
      ([("pipe", natOrNone pipe)] ++ laneField lane ++ [("dir", .str dir), ("how", .str how)]) := rfl
    rw [fields, checkStep_eq_nil row (by simp)]
    simp [CommonChecks, checkOperation, number]
    omega

/-- A pipe that is made writable is always right. -/
theorem writable_right {w : Bool} : checkStep binds i (opLine i "set_writable"
    [("pipe", .nat pipe), ("writable", .bool w)]) = .ok [] := by
  have row : ("set_writable", ["pipe", "writable"], []) ∈ ops := by simp [ops]
  rw [checkStep_eq_nil row (by simp)]
  simp [CommonChecks, checkOperation]

/-- An expected open session is always right. -/
theorem isOpen_right : checkStep binds i (opLine i "expect_open" []) = .ok [] := by
  have row : ("expect_open", [], []) ∈ ops := by simp [ops]
  rw [checkStep_eq_nil row (by simp)]
  simp [CommonChecks, checkOperation]

/-- An expected refusal of a carrier is always right. -/
theorem rejectCarrier_right {carrier : String} : checkStep binds i (opLine i
    "expect_reject_carrier" [("carrier", .str carrier)]) = .ok [] := by
  have row : ("expect_reject_carrier", ["carrier"], []) ∈ ops := by simp [ops]
  rw [checkStep_eq_nil row (by simp)]
  simp [CommonChecks, checkOperation]

/-- Time that passes is always right. -/
theorem adv_right {ms : Nat} : checkStep binds i (opLine i "advance" [("ms", .nat ms)]) = .ok [] := by
  have row : ("advance", ["ms"], []) ∈ ops := by simp [ops]
  -- The time is asked for once more by the operation itself.
  have found : entry (opLine i "advance" [("ms", .nat ms)]) "ms" = .ok (.nat ms) := rfl
  rw [checkStep_eq_nil row (by simp)]
  simp [CommonChecks, checkOperation, checkAdvance, found]

/-- A note is always right. -/
theorem note_right {text : String} :
    checkStep binds i (opLine i "note" [("text", .str text)]) = .ok [] := by
  have row : ("note", ["text"], []) ∈ ops := by simp [ops]
  rw [checkStep_eq_nil row (by simp)]
  simp [CommonChecks, checkOperation]

/-- The text of a value as it is written, which is one of some names. -/
def Value.Among (names : List String) (value : Value) : Prop :=
  ∃ name ∈ names, value.toJson.text = some name

/-- A value is iterated over, once it is written, as texts that are all among some names. -/
def Value.EachAmong (names : List String) (value : Value) : Prop :=
  ∃ items, value.toJson.listed = .ok items ∧ ∀ item ∈ items, item.text ∈ names.map some

/-- A value offers choices, itself or several, all of which are among some names. -/
def Value.Offers (names : List String) (value : Value) : Prop :=
  ∃ offered, value.toJson.choices = .ok offered ∧ ∀ choice ∈ offered, choice.text ∈ names.map some

/-- A pattern names any type, or types that are known. -/
def Value.KnownPattern (pattern : Value) : Prop :=
  ∃ fields type, pattern = .dict fields ∧ fields.lookup "type" = some type ∧
    (type.toJson.text = some "*" ∨ type.Offers patternNames)

/-- A text is known as the check compares it: it is that of one of the names. -/
theorem among_iff {names : List String} {value : Value} :
    value.toJson.text ∈ names.map some ↔ value.Among names := by
  -- The two sides differ in the direction of the equation only.
  rw [List.mem_map]
  refine exists_congr fun name => and_congr_right' ?_
  exact eq_comm

/-- A text that is given as such is known when it is one of the names. -/
theorem among_str {names : List String} {text : String} :
    (Value.str text).Among names ↔ text ∈ names := by
  simp [Value.Among]

/-- The items of a list are written one by one. -/
theorem itemsToJson_eq (items : List Value) : itemsToJson items = items.map Value.toJson := by
  -- The induction is on the items.
  induction items with
  | nil => rfl
  | cons item items ih => rw [itemsToJson, ih, List.map_cons]

/-- A list is iterated over as its items. -/
theorem eachAmong_list {names : List String} {items : List Value} :
    (Value.list items).EachAmong names ↔ ∀ item ∈ items, item.Among names := by
  -- Every item is written where it stands.
  simp only [Value.EachAmong, Value.toJson, Value.listed, Except.ok.injEq, existsAndEq, true_and,
    itemsToJson_eq, List.forall_mem_map, among_iff]

/-- Nothing is reported of names that are all known. -/
theorem reports_among {names : List String} {values : List Value} {report : Value → String} :
    (values.flatMap fun value => reportIf (value.text ∉ names.map some) (report value)) = [] ↔
      ∀ value ∈ values, value.text ∈ names.map some := by
  -- There is a report for every value that is not known.
  rw [List.flatMap_eq_nil_iff]
  simp only [reportIf_eq_nil, not_not]

/-- A pattern is found right exactly when it names what is known. -/
theorem checkPattern_eq_nil {pattern : Value} :
    checkPattern pattern.toJson = .ok [] ↔ pattern.KnownPattern := by
  -- Only a dict is a pattern, and its type decides.
  cases pattern with
  | dict fields =>
    rw [Value.toJson, checkPattern, lookup_toJson]
    simp only [Value.KnownPattern, Value.dict.injEq, existsAndEq, true_and]
    cases fields.lookup "type" with
    | none => simp
    | some type =>
      simp only [Option.map_some, Option.some.injEq, existsAndEq, true_and]
      split
      · rename_i any
        simp [any]
      · rename_i named
        simp only [named, false_or, Value.Offers]
        cases type.toJson.choices with
        | error fault => simp
        | ok offered =>
          simp only [ok_bind, pure_ok, Except.ok.injEq, reports_among, existsAndEq, true_and]
  | _ => simp [Value.toJson, checkPattern, Value.KnownPattern]

section Checks

variable {op : String} {rest : Fields}

/-- A call of the interface is right when it is known, and its stream is bound before it. -/
theorem checkApi_eq_nil {call : Value} {args : Fields} (called : rest.lookup "call" = some call)
    (argued : rest.lookup "args" = some (.dict args)) :
    checkApi binds (opLine i op rest) = .ok [] ↔ call.Among apiCalls ∧
      ∀ handle, ((args.lookup "stream").map Value.toJson).bind Value.text = some handle →
        handle ∈ binds := by
  rw [checkApi, entry_opLine (by decide) (by decide) called, ok_bind,
    entry_opLine (by decide) (by decide) argued, ok_bind, Value.toJson, Value.fields, ok_bind,
    pure_ok, Except.ok.injEq, List.append_eq_nil_iff, reportIf_eq_nil, not_not, among_iff, textAt,
    lookup_toJson]
  -- The call may name a stream, or none.
  cases ((args.lookup "stream").map Value.toJson).bind Value.text <;> simp

/-- Expected frames are right when the way of matching is known, and every pattern is. -/
theorem checkExpectFrames_eq_nil {matching : Value} {patterns : List Value}
    (mode : rest.lookup "match" = some matching)
    (listed : rest.lookup "frames" = some (.list patterns)) :
    checkExpectFrames (opLine i op rest) = .ok [] ↔
      matching.Among ["exact", "contains", "unordered", "first"] ∧
      ∀ pattern ∈ patterns, pattern.KnownPattern := by
  -- The reports are those of the matching, and behind them those of each pattern.
  have both := @Reports.clean_both Failure String
  rw [checkExpectFrames, entry_opLine (by decide) (by decide) mode, ok_bind,
    entry_opLine (by decide) (by decide) listed, ok_bind, Value.toJson, Value.listed, ok_bind]
  refine both.trans ?_
  rw [Reports.clean_ok, reportIf_eq_nil, not_not, among_iff, Reports.clean_each, itemsToJson_eq,
    List.forall_mem_map]
  refine and_congr_right' (forall₂_congr ?_)
  intro pattern member
  exact checkPattern_eq_nil

/-- Types that must not come are right when all of them are known. -/
theorem checkExpectNoFrames_eq_nil {types : List Value}
    (listed : (rest.lookup "types").getD (.list []) = .list types) :
    checkExpectNoFrames (opLine i op rest) = .ok [] ↔ ∀ type ∈ types, type.Among patternNames := by
  -- Where no types are given, the list is empty.
  have given : ((opLine i op rest).lookup "types").getD (.list []) =
      .list (types.map Value.toJson) := by
    rw [lookup_opLine (by decide) (by decide)]
    cases found : rest.lookup "types" with
    | none =>
      simp only [found, Option.getD_none, Value.list.injEq] at listed
      simp [← listed]
    | some value =>
      simp only [found, Option.getD_some] at listed
      simp [listed, Value.toJson, itemsToJson_eq]
  rw [checkExpectNoFrames, given, Value.listed, ok_bind, pure_ok, Except.ok.injEq, reports_among,
    List.forall_mem_map]
  simp only [among_iff]

/-- An expected close is right when its code is known in the space it is said to come from. -/
theorem checkExpectClose_eq_nil {code : Value} {space : String} {remote : Fields}
    (said : rest.lookup "error" = some (.dict ([("space", .str space), ("code", code)] ++ remote))) :
    checkExpectClose (opLine i op rest) = .ok [] ↔
      (space = "transport" ∧ code.Among (transportErrors.map fun row => row.1.text)) ∨
      (space = "application" ∧ code.toJson.integer ≠ none) ∨
      (space = "local" ∧ code.Among localReasons) := by
  -- The codes of the transport are compared by their texts.
  have texts : transportErrors.map (fun row => some row.1.text) =
      (transportErrors.map fun row => row.1.text).map some := by
    rw [List.map_map]
    rfl
  rw [checkExpectClose, entry_opLine (by decide) (by decide) said, ok_bind, Value.toJson,
    Value.fields, ok_bind, pure_ok, Except.ok.injEq]
  simp only [textAt, lookup_toJson, lookup_both, lookup_field, String.reduceEq, if_true, if_false,
    Option.some_or, Option.map_some, Option.getD_some, toJson_str, Option.bind_some, text_str]
  rw [texts]
  -- The spaces are told apart by their names.
  split
  · rename_i same
    rw [Option.some.injEq] at same
    rw [reportIf_eq_nil, not_not, among_iff]
    simp [same]
  · rename_i same
    rw [Option.some.injEq] at same
    simp [same]
  · rename_i same
    rw [Option.some.injEq] at same
    rw [reportIf_eq_nil, not_not, among_iff]
    simp [same]
  · rename_i transport application none
    simp only [Option.some.injEq, imp_false] at transport application none
    simp [transport, application, none]

/-- An event is right when it is known, and the features of an established session are. -/
theorem checkEvent_eq_nil {event : String} {fields : Fields}
    (named : rest.lookup "event" = some (.str event))
    (given : op = "expect_event" → rest.lookup "fields" = some (.dict fields)) :
    checkEvent op (opLine i op rest) = .ok [] ↔ event ∈ traceEvents ∧
      (op = "expect_event" → event = "established" →
        ((fields.lookup "features").getD (.list [])).EachAmong features) := by
  rw [checkEvent, entry_opLine (by decide) (by decide) named, ok_bind, toJson_str, text_str]
  simp only [Option.some.injEq]
  split
  · -- The session is established, and every feature in its fields is looked up.
    rename_i both
    obtain ⟨rfl, rfl⟩ := both
    rw [entry_opLine (by decide) (by decide) (given rfl), ok_bind, Value.toJson, Value.fields,
      ok_bind, lookup_toJson]
    have written : ((fields.lookup "features").map Value.toJson).getD (.list []) =
        ((fields.lookup "features").getD (.list [])).toJson := by
      cases fields.lookup "features" <;> rfl
    rw [written]
    have event : "established" ∈ traceEvents := by simp [traceEvents]
    rw [Value.EachAmong]
    cases ((fields.lookup "features").getD (.list [])).toJson.listed with
    | error fault => simp
    | ok names =>
      simp only [ok_bind, pure_ok, Except.ok.injEq, List.append_eq_nil_iff, reportIf_eq_nil,
        not_not, reports_among, existsAndEq, true_and, true_imp_iff]
      simp [event]
  · -- Of any other event only the name is checked.
    rename_i other
    simp only [pure_ok, Except.ok.injEq, reportIf_eq_nil, not_not, List.mem_map,
      Option.some.injEq, exists_eq_right, iff_self_and]
    intro _ first second
    exact absurd ⟨first, second⟩ other

/-- A state is right when that of the session is known, and those offered for a pipe are. -/
theorem checkState_eq_nil {session : Option String}
    (held : rest.lookup "session" = session.map .str) (filled : session ≠ some "") :
    checkState (opLine i op rest) = .ok [] ↔ (∀ name ∈ session, name ∈ sessionStates) ∧
      ∀ state, rest.lookup "state" = some state → state.toJson.truthy = true →
        state.Offers pipeStates := by
  rw [checkState, lookup_opLine (by decide) (by decide), lookup_opLine (by decide) (by decide), held]
  -- The state of the session is compared only where it is said, and it is never the empty text.
  have front : (((session.map Value.str).map Value.toJson).getD .none).truthy = true ∧
      (((session.map Value.str).map Value.toJson).getD .none).text ∉ sessionStates.map some ↔
        ¬ ∀ name ∈ session, name ∈ sessionStates := by
    cases session with
    | none => simp [Value.truthy]
    | some name =>
      have filled : name ≠ "" := fun empty => filled (congrArg some empty)
      simp [Value.truthy, filled]
  simp only [front]
  cases rest.lookup "state" with
  | none => simp [Value.truthy]
  | some state =>
    simp only [Option.map_some, Option.getD_some, Option.some.injEq, forall_eq']
    split
    · -- A state of the pipe is said, which offers some choices.
      rename_i said
      simp only [said, true_imp_iff, Value.Offers]
      cases state.toJson.choices with
      | error fault => simp
      | ok offered =>
        simp only [ok_bind, pure_ok, Except.ok.injEq, List.append_eq_nil_iff, reportIf_eq_nil,
          not_not, reports_among, existsAndEq, true_and]
    · rename_i unsaid
      simp [unsaid]

/-- A pipe is brought up rightly when its kind is known, and a lane has all that a lane needs. -/
theorem checkPipeUp_eq_nil {dir : String} {via : Option String}
    (directed : rest.lookup "dir" = some (.str dir))
    (chosen : rest.lookup "via" = via.map .str) :
    checkPipeUp (opLine i op rest) = .ok [] ↔
      (∀ kind ∈ via, kind ∈ ["bootstrap", "listener", "lane"]) ∧
      (via = some "lane" → hasField rest "carrier" = true ∧ hasField rest "conn" = true ∧
        dir = "in") := by
  rw [checkPipeUp, lookup_opLine (by decide) (by decide), chosen,
    hasField_opLine (by decide) (by decide), hasField_opLine (by decide) (by decide),
    entry_opLine (by decide) (by decide) directed]
  cases via with
  | none => simp
  | some kind =>
    -- Only a lane asks for more: a carrier, a connection, and the direction in.
    by_cases lane : kind = "lane"
    · subst lane
      by_cases both : hasField rest "carrier" = true ∧ hasField rest "conn" = true
      · simp [both]
      · simp [both]
        tauto
    · simpa [lane] using or_iff_not_imp_left.symm

end Checks

end Operations

end Zmux
