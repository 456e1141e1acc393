import Zmux.Codec.JsonText
import Zmux.Proofs.TraceDeliveries

/-! The text of a trace file is read as the lines that were written. -/

namespace Zmux

open Wire

section Values

variable {value : Value} {fields : Fields}

/-- What is written for a value: a JSON value that is read as its JSON form. -/
structure WrittenAs (value : Value) (json : Json) : Prop where
  written : value.toJson.json = .ok json
  back : Value.ofJson json = value.toJson
  keyed : json.KeyedAll

/-- Fields that were read have the keys of the object. -/
theorem keys_fieldsOfJson (fields : List (String × Json)) :
    (fieldsOfJson fields).map Prod.fst = fields.map Prod.fst := by
  -- The induction is on the fields.
  induction fields with
  | nil => rfl
  | cons field fields ih => rw [fieldsOfJson, List.map_cons, List.map_cons, ih]

mutual

/-- Every value whose dicts have each key once is written, with its bytes as text. -/
theorem Value.written : ∀ value : Value, value.Keyed → ∃ json, WrittenAs value json
  | .none, _ => ⟨.null, rfl, rfl, trivial⟩
  | .bool flag, _ => ⟨.bool flag, rfl, rfl, trivial⟩
  | .int number, _ => ⟨.number number, rfl, rfl, trivial⟩
  | .str text, _ => ⟨.string text, rfl, rfl, trivial⟩
  | .bytes data, _ => ⟨.string (hexText data), rfl, rfl, trivial⟩
  | .list items, keyed => by
    obtain ⟨written, out, back, inside⟩ := itemsWritten items keyed
    refine ⟨.array written, ?_, ?_, inside⟩
    · rw [Value.toJson, Value.json, out, map_ok]
    · rw [Value.ofJson, back, Value.toJson]
  | .dict fields, keyed => by
    obtain ⟨written, out, back, inside⟩ := fieldsWritten fields keyed.2
    refine ⟨.object written, ?_, ?_, ?_, inside⟩
    · rw [Value.toJson, Value.json, out, map_ok]
    · rw [Value.ofJson, back, Value.toJson]
    · rw [← keys_fieldsOfJson, back, keys_toJson]
      exact keyed.1

/-- Every list of such values is written item by item. -/
theorem itemsWritten : ∀ items : List Value, ItemsKeyed items →
    ∃ written, itemsJson (itemsToJson items) = .ok written ∧
      itemsOfJson written = itemsToJson items ∧ ItemsKeyedAll written
  | [], _ => ⟨[], rfl, rfl, trivial⟩
  | item :: items, keyed => by
    obtain ⟨head, first⟩ := item.written keyed.1
    obtain ⟨tail, out, back, inside⟩ := itemsWritten items keyed.2
    refine ⟨head :: tail, ?_, ?_, first.keyed, inside⟩
    · rw [itemsToJson, itemsJson, first.written, ok_bind, out, ok_bind, pure_ok]
    · rw [itemsOfJson, first.back, back, itemsToJson]

/-- Every dict of such values is written field by field. -/
theorem fieldsWritten : ∀ fields : Fields, FieldsKeyed fields →
    ∃ written, fieldsJson (fieldsToJson fields) = .ok written ∧
      fieldsOfJson written = fieldsToJson fields ∧ FieldsKeyedAll written
  | [], _ => ⟨[], rfl, rfl, trivial⟩
  | (key, value) :: fields, keyed => by
    obtain ⟨head, first⟩ := value.written keyed.1
    obtain ⟨tail, out, back, inside⟩ := fieldsWritten fields keyed.2
    refine ⟨(key, head) :: tail, ?_, ?_, first.keyed, inside⟩
    · rw [fieldsToJson, fieldsJson, first.written, ok_bind, out, ok_bind, pure_ok]
    · rw [fieldsOfJson, first.back, back, fieldsToJson]

end

mutual

/-- What is read from an object has its keys. -/
theorem ofJson_keyed : ∀ json : Json, json.KeyedAll → (Value.ofJson json).Keyed
  | .null, _ | .bool _, _ | .number _, _ | .string _, _ => trivial
  | .array items, keyed => itemsOfJson_keyed items keyed
  | .object fields, keyed => by
    refine ⟨?_, fieldsOfJson_keyed fields keyed.2⟩
    rw [DistinctKeys, keys_fieldsOfJson]
    exact keyed.1

/-- What is read from the items of an array has their keys. -/
theorem itemsOfJson_keyed : ∀ items : List Json, ItemsKeyedAll items → ItemsKeyed (itemsOfJson items)
  | [], _ => trivial
  | item :: items, keyed => ⟨ofJson_keyed item keyed.1, itemsOfJson_keyed items keyed.2⟩

/-- What is read from the fields of an object has their keys. -/
theorem fieldsOfJson_keyed : ∀ fields : List (String × Json), FieldsKeyedAll fields →
    FieldsKeyed (fieldsOfJson fields)
  | [], _ => trivial
  | (_, value) :: fields, keyed => ⟨ofJson_keyed value keyed.1, fieldsOfJson_keyed fields keyed.2⟩

end

/-- The JSON form of a value has each key once, as the value has. -/
theorem Value.toJson_keyed (keyed : value.Keyed) : value.toJson.Keyed := by
  -- The JSON form is what the written text is read as.
  obtain ⟨json, written⟩ := value.written keyed
  rw [← written.back]
  exact ofJson_keyed json written.keyed

/-- The JSON form of a value is read back from its text, with white space behind it or not. -/
theorem loads_dumps (keyed : value.Keyed) (indent : Option Nat) {behind : String}
    (blank : ∀ letter ∈ behind.toList, isJsonSpace letter = true) :
    ∃ text, dumps value.toJson indent = .ok text ∧ loads (text ++ behind) = .ok value.toJson := by
  -- The text is that of the one JSON value that is written.
  obtain ⟨json, written⟩ := value.written keyed
  refine ⟨String.ofList (json.text (spacing indent) 0), ?_, ?_⟩
  · rw [dumps, written.written, ok_bind, pure_ok]
  · rw [loads, String.toList_append, String.toList_ofList, readJson_text written.keyed _ blank]
    exact congrArg Except.ok written.back

/-- A letter that can be printed breaks no line. -/
theorem isLineBreak_printable {letter : Char} (printable : isPrintable letter = true) :
    isLineBreak letter = false := by
  rw [isPrintable, decide_eq_true_eq] at printable
  rw [isLineBreak, decide_eq_false_iff_not]
  intro listed
  simp only [List.mem_cons, List.not_mem_nil, or_false] at listed
  -- None of the letters that break a line can be printed.
  rcases listed with rfl | rfl | rfl | rfl | rfl | rfl | rfl | rfl | rfl | rfl <;>
    exact absurd printable (by decide)

/-- A dict is written on one line, which is read as the JSON form of the dict. -/
theorem readLine_dumps (keyed : (Value.dict fields).Keyed) :
    ∃ text, dumps (.dict (fieldsToJson fields)) = .ok text ∧
      readLine text.toList = .ok (fieldsToJson fields) ∧
      ∀ letter ∈ text.toList, isLineBreak letter = false := by
  -- The text is that of the one JSON value that is written, without white space behind it.
  obtain ⟨json, written⟩ := (Value.dict fields).written keyed
  have dict : Value.dict (fieldsToJson fields) = (Value.dict fields).toJson := by rw [Value.toJson]
  have read := @readJson_text [] json written.keyed .line (by simp)
  rw [List.append_nil] at read
  refine ⟨String.ofList (json.text .line 0), ?_, ?_, ?_⟩
  · rw [dict, dumps, written.written, ok_bind, pure_ok, spacing]
  · rw [readLine, loads, String.ofList_toList, String.toList_ofList, read]
    show (Value.ofJson json).fields = _
    rw [written.back, ← dict, Value.fields]
  · rw [String.toList_ofList]
    -- What cannot be printed is escaped, so no line ends in the text.
    intro letter listed
    exact isLineBreak_printable (List.all_eq_true.mp (text_printable json 0) letter listed)

/-- Dicts are written line by line, and each line is read by itself. -/
theorem readLines_dumps {dicts : List Fields} (keyed : ∀ fields ∈ dicts, (Value.dict fields).Keyed) :
    ∃ texts, (dicts.map fieldsToJson).mapM (fun fields => dumps (.dict fields)) = .ok texts ∧
      texts.length = dicts.length ∧
      (texts.map String.toList).mapM readLine = .ok (dicts.map fieldsToJson) ∧
      ∀ line ∈ texts.map String.toList, ∀ letter ∈ line, isLineBreak letter = false := by
  -- The induction is on the dicts.
  induction dicts with
  | nil => exact ⟨[], rfl, rfl, rfl, by simp⟩
  | cons fields dicts ih =>
    rw [List.forall_mem_cons] at keyed
    obtain ⟨text, written, read, whole⟩ := readLine_dumps keyed.1
    obtain ⟨texts, others, length, back, unbroken⟩ := ih keyed.2
    refine ⟨text :: texts, ?_, ?_, ?_, ?_⟩
    · rw [List.map_cons, List.mapM_cons, written, ok_bind, others, ok_bind, pure_ok]
    · rw [List.length_cons, List.length_cons, length]
    · rw [List.map_cons, List.mapM_cons, read, ok_bind, back, ok_bind, pure_ok, List.map_cons]
    · rw [List.map_cons, List.forall_mem_cons]
      exact ⟨whole, unbroken⟩

/-- The lines of a file are read as the JSON forms of the dicts that were written. -/
theorem readTrace_linesText {dicts : List Fields} (some_line : dicts ≠ [])
    (keyed : ∀ fields ∈ dicts, (Value.dict fields).Keyed) :
    ∃ text, linesText (dicts.map fieldsToJson) = .ok text ∧
      readTrace text = .ok (dicts.map fieldsToJson) := by
  obtain ⟨texts, written, length, read, whole⟩ := readLines_dumps keyed
  -- There is a line for every dict, so there is one.
  have filled : texts.map String.toList ≠ [] := by
    intro empty
    rw [List.map_eq_nil_iff] at empty
    rw [empty] at length
    exact some_line (List.length_eq_zero_iff.mp length.symm)
  -- A line break stands behind every line, the last one too.
  have letters : (joinText '\n' texts ++ "\n").toList =
      (texts.map String.toList).flatMap fun line => line ++ ['\n'] := by
    rw [String.toList_append, joinText, String.toList_ofList]
    exact intercalate_break filled
  refine ⟨joinText '\n' texts ++ "\n", ?_, ?_⟩
  · rw [linesText, written, ok_bind, pure_ok]
  · rw [readTrace, letters, splitLines_flatMap whole, read]

end Values

section Scripts

variable {t next : Script}

/-- The values that a call of the builder is given. -/
def ScriptCall.values : ScriptCall → List Value
  | deliver (.send _ records _ _ _) => [.list (records.map .list)]
  | deliver (.sendMessages _ messages _ _) => [.list (messages.map .list)]
  | deliver (.raw ..) => []
  | up _ _ _ kw => [.dict kw]
  | api _ expect _ args => .dict args :: expect.toList
  | frames pipe patterns _ _ _ => pipe :: patterns
  | noFrames pipe _ _ => [pipe]
  | closed code _ (.said value) _ => [code, value]
  | closed code _ .default _ => [code]
  | state _ _ _ pstate => [pstate]
  | event _ fields => [.dict fields]
  | laneUp .. | down .. | writable .. | expectLocalTp | isOpen | noEvent _ | pipeClosed ..
  | rejectCarrier _ | adv _ | note _ => []

/-- Every dict of a script has each of its keys once. -/
structure Script.Keyed (t : Script) : Prop where
  header : (Value.dict t.header.overrides).Keyed
  steps : ∀ step ∈ t.steps, (Value.dict step.fields).Keyed

/-- The fields of a header have each key once, as its overrides have. -/
theorem Header.fields_keyed {header : Header} (keyed : (Value.dict header.overrides).Keyed) :
    (Value.dict header.fields).Keyed := by
  simp only [keyed_dict] at keyed
  simp [Header.fields, keyed]

/-- No value has no key. -/
@[simp] theorem keyed_none : Value.none.Keyed := trivial

/-- A number that may be left out has no key. -/
@[simp] theorem keyed_natOrNone (number : Option Nat) : (natOrNone number).Keyed := by
  cases number <;> trivial

/-- A text that may be left out has no key. -/
@[simp] theorem keyed_strOrNone (text : Option String) : (strOrNone text).Keyed := by
  cases text <;> trivial

/-- A lane has no key inside it. -/
@[simp] theorem keyed_laneField (lane : Nat) :
    EveryField (fun _ value => value.Keyed) (laneField lane) := by
  rw [laneField]
  split <;> simp

/-- The fields of a close have each key once, as the values in it have. -/
theorem closeFields_keyed {code : Value} {space : String} {wire : CloseWire} {remote : Option Bool}
    (known : code.Keyed) (shown : (closeWire space remote wire).Keyed) :
    (Value.dict (closeFields code space wire remote)).Keyed := by
  rw [closeFields]
  split
  · simp [known]
  · simp [known, shown]

/-- Setting a field is putting a value under its key. -/
theorem setField_eq_put (fields : Fields) (key : String) (value : Value) :
    setField fields key value = put fields key value := by
  -- The induction is on the fields, up to the one that has the key.
  induction fields with
  | nil => rfl
  | cons field fields ih => rw [setField, put, ih]

/-- A dict with one more field set in it has each key once. -/
theorem keyed_setField {fields : Fields} {key : String} {value : Value}
    (keyed : (Value.dict fields).Keyed) (inside : value.Keyed) :
    (Value.dict (setField fields key value)).Keyed := by
  rw [keyed_dict] at keyed ⊢
  rw [setField_eq_put]
  refine ⟨nodup_put keyed.1, fun field listed => ?_⟩
  -- A field is the one that was set, or was there before.
  rcases mem_put listed with rfl | held
  · exact inside
  · exact keyed.2 field held

/-- A dict with others set in it has each key once, whatever keys they have. -/
theorem keyed_update {fields others : Fields} (keyed : (Value.dict fields).Keyed)
    (inside : (Value.dict others).Keyed) : (Value.dict (update fields others)).Keyed := by
  rw [keyed_dict] at inside
  have values := inside.2
  clear inside
  -- The induction is on the fields that are set.
  induction others generalizing fields with
  | nil => exact keyed
  | cons field others ih =>
    rw [everyField_cons] at values
    rw [update, List.foldl_cons]
    exact ih (keyed_setField keyed values.1) values.2

/-- The small parameters of the local endpoint have each key once. -/
theorem localSmallTp_keyed : (Value.dict localSmallTp).Keyed := by
  apply keyed_update
  · simp [smallTp]
  · simp [lanes]

/-- The parameters of every profile have each key once. -/
theorem profiles_keyed : ∀ row ∈ profiles, (Value.dict row.2).Keyed := by
  simp only [profiles, List.forall_mem_cons, List.not_mem_nil, false_imp_iff, implies_true, and_true]
  refine ⟨by simp [lanes], localSmallTp_keyed, ?_, ?_, ?_, ?_⟩ <;>
    exact keyed_update localSmallTp_keyed (by simp [mpTp])

/-- The parameters of a script have each key once where those of its header do. -/
theorem localTp_keyed {params : Fields} (keyed : (Value.dict t.header.overrides).Keyed)
    (held : t.localTp = .ok params) : (Value.dict params).Keyed := by
  simp only [Script.localTp, bind_eq_ok] at held
  obtain ⟨prof, named, held⟩ := held
  have plain := profiles_keyed _ (entry_mem named)
  split at held
  · cases held
    exact plain
  · -- The header overrides some parameters, which are set in those of the profile.
    rename_i others given
    cases held
    rw [keyed_dict] at keyed
    obtain ⟨front, back, split, -⟩ := List.lookup_eq_some_iff.mp given
    exact keyed_update plain (keyed.2 ("tp", .dict others) (by simp [split]))
  · cases held

/-- The fields of a step have each key once, as the values in it have. -/
theorem Step.keyed {step : Step} (records : ∀ value ∈ step.records, value.Keyed)
    (messages : ∀ value ∈ step.messages, value.Keyed) : (Value.dict step.fields).Keyed := by
  rw [keyed_dict]
  refine ⟨step.distinct, ?_⟩
  rw [fields_eq]
  simp only [Option.mem_def] at records messages
  -- The target is a number, a name or nothing.
  have aimed : step.target.field.2.Keyed := by
    rcases step.target with ⟨_ | id⟩ | name <;> trivial
  revert aimed
  generalize step.target.field = field
  obtain ⟨key, value⟩ := field
  intro aimed
  simpa [parts, aimed] using ⟨records, messages⟩

/-- A step is appended, whatever is counted of it. -/
theorem Trace.add_steps {steps : List Step} {sent : Tally Target} {after : Trace} {step : Step}
    (applied : Trace.add ⟨steps, sent⟩ step = .ok after) : after.steps = steps ++ [step] := by
  -- The step is counted by its placeholder, by its bytes, or not at all.
  unfold Trace.add at applied
  split at applied
  · split at applied
    · simp only [bind_eq_ok, pure_ok, Except.ok.injEq] at applied
      obtain ⟨_, -, _, -, rfl⟩ := applied
      rfl
    · cases applied
      rfl
  · cases applied
    rfl

/-- The records and messages of a step are those of the call that it was appended by. -/
theorem Call.keyed {call : Call} {before after : Trace} (applied : call.apply before = .ok after)
    (given : ∀ value ∈ (ScriptCall.deliver call).values, value.Keyed) :
    ∃ step : Step, after.steps = before.steps ++ [step] ∧ (Value.dict step.fields).Keyed := by
  -- Each call appends one step, with the records or messages that it is given.
  cases call with
  | send pipe records chunks invalid carrier =>
    simp only [Call.apply, Trace.send] at applied
    split at applied
    · exact ⟨_, Trace.add_steps applied, Step.keyed (by simpa [ScriptCall.values] using given) (by simp)⟩
    · simp only [bind_eq_ok] at applied
      obtain ⟨b, -, applied⟩ := applied
      exact ⟨_, Trace.add_steps applied, Step.keyed (by simpa [ScriptCall.values] using given) (by simp)⟩
  | sendMessages pipe messages raw carrier =>
    cases raw with
    | some raw =>
      simp only [Call.apply, Trace.sendMessages, bind_eq_ok] at applied
      obtain ⟨count, -, applied⟩ := applied
      exact ⟨_, Trace.add_steps applied, Step.keyed (by simp) (by simp)⟩
    | none =>
      simp only [Call.apply, Trace.sendMessages, bind_eq_ok] at applied
      obtain ⟨enc, -, count, -, applied⟩ := applied
      exact ⟨_, Trace.add_steps applied, Step.keyed (by simp) (by simpa [ScriptCall.values] using given)⟩
  | raw pipe b chunks carrier =>
    simp only [Call.apply, Trace.raw] at applied
    exact ⟨_, Trace.add_steps applied, Step.keyed (by simp) (by simp)⟩

/-- A script with one more step has each key once, as the step has. -/
theorem Script.Keyed.append {step : TraceStep} (held : t.Keyed) (appended : Appends t next step)
    (keyed : (Value.dict step.fields).Keyed) : next.Keyed where
  header := by
    rw [appended.2]
    exact held.header
  steps := by
    rw [appended.1, List.forall_mem_append, List.forall_mem_singleton]
    exact ⟨held.steps, keyed⟩

/-- A call that is given values with each key once appends a step with each key once. -/
theorem ScriptCall.keyed {call : ScriptCall} (applied : call.apply t = .ok next)
    (given : ∀ value ∈ call.values, value.Keyed) (held : t.Keyed) : next.Keyed := by
  -- Each call appends its own fields, with the values that it is given.
  cases call with
  | deliver call =>
    obtain ⟨after, called, steps, header⟩ := deliver_appends applied
    obtain ⟨step, one, keyed⟩ := Call.keyed called given
    refine @Script.Keyed.append _ _ (.deliver step) held ⟨?_, header⟩ keyed
    rw [steps, one]
    rfl
  | expectLocalTp =>
    simp only [apply, Script.expectLocalTp, bind_eq_ok, pure_ok, Except.ok.injEq] at applied
    obtain ⟨params, local_tp, rfl⟩ := applied
    -- The parameters come from the profile and from the header.
    have inside := Value.toJson_keyed (localTp_keyed held.header local_tp)
    exact held.append ⟨rfl, rfl⟩ (by simp [TraceStep.fields, inside])
  | up pipe dir via kw =>
    cases applied
    refine held.append ⟨rfl, rfl⟩ (keyed_update ?_ ?_)
    · simp
    · exact given _ (List.mem_singleton_self _)
  | down pipe dir how carrier lane =>
    cases applied
    exact held.append ⟨rfl, rfl⟩ (by cases carrier <;> simp [TraceStep.fields, downFields])
  | api call expect bind args =>
    cases applied
    simp only [values, List.forall_mem_cons, keyed_dict, Option.mem_toList] at given
    exact held.append ⟨rfl, rfl⟩ (by simpa [TraceStep.fields] using given)
  | frames pipe patterns matching once lane =>
    cases applied
    simp only [values, List.forall_mem_cons] at given
    exact held.append ⟨rfl, rfl⟩ (by cases once <;> simpa [TraceStep.fields] using given)
  | noFrames pipe types lane =>
    cases applied
    simp only [values, List.forall_mem_singleton] at given
    exact held.append ⟨rfl, rfl⟩
      (by by_cases empty : types = [] <;> simp [TraceStep.fields, empty, given])
  | closed code space wire remote =>
    cases applied
    refine held.append ⟨rfl, rfl⟩ (closeFields_keyed ?_ ?_)
    · cases wire <;> exact given code List.mem_cons_self
    · cases wire with
      | default => rw [closeWire]; split <;> trivial
      | said value => exact given value (List.mem_cons_of_mem _ List.mem_cons_self)
  | state session pipe dir pstate =>
    cases applied
    simp only [values, List.forall_mem_singleton] at given
    exact held.append ⟨rfl, rfl⟩ (by cases pipe <;> simp [TraceStep.fields, given])
  | event name fields =>
    cases applied
    simp only [values, List.forall_mem_singleton] at given
    exact held.append ⟨rfl, rfl⟩ (by simpa [TraceStep.fields] using given)
  | laneUp _ _ | writable _ _ | isOpen | noEvent _ | pipeClosed _ _ _ _ | rejectCarrier _ | adv _
  | note _ =>
    cases applied
    exact held.append ⟨rfl, rfl⟩ (by simp [TraceStep.fields])

/-- A run of calls leaves each key once in all dicts. -/
theorem runScript_keyed {calls : List ScriptCall} (run : runScript calls t = .ok next)
    (given : ∀ call ∈ calls, ∀ value ∈ call.values, value.Keyed) (held : t.Keyed) : next.Keyed := by
  -- The induction is on the calls.
  induction calls generalizing t with
  | nil =>
    cases run
    exact held
  | cons call calls ih =>
    simp only [runScript, bind_eq_ok] at run
    obtain ⟨between, applied, run⟩ := run
    rw [List.forall_mem_cons] at given
    exact ih run given.2 (ScriptCall.keyed applied given.1 held)

/-- The dicts of the lines of a script, before their bytes become texts. -/
theorem Script.toLines_keyed (held : t.Keyed) : ∃ dicts : List Fields, dicts ≠ [] ∧
    t.toLines = dicts.map fieldsToJson ∧ ∀ fields ∈ dicts, (Value.dict fields).Keyed := by
  refine ⟨t.header.fields :: t.steps.mapIdx fun i step =>
    update [("step", .nat (i + 1))] step.fields, by simp, ?_, ?_⟩
  · simp [toLines, List.mapIdx_eq_zipIdx_map, TraceStep.line]
  · rw [List.forall_mem_cons]
    refine ⟨Header.fields_keyed held.header, ?_⟩
    -- A line is the number of its step, and the fields that are set behind it.
    intro fields listed
    obtain ⟨i, inside, rfl⟩ := List.mem_mapIdx.mp listed
    exact keyed_update (by simp) (held.steps _ (List.getElem_mem inside))

/-- A script of calls that are given dicts is written as a text, which is read as its lines. -/
theorem scriptText_read (header : Header) (calls : List ScriptCall) (t : Script)
    (overrides : (Value.dict header.overrides).Keyed)
    (given : ∀ call ∈ calls, ∀ value ∈ call.values, value.Keyed)
    (run : runScript calls (Script.fresh header) = .ok t) :
    ∃ text, t.text = .ok text ∧ readTrace text = .ok t.toLines := by
  have held := runScript_keyed run given ⟨overrides, by simp [Script.fresh]⟩
  -- The lines are JSON forms of dicts, and there is at least that of the header.
  obtain ⟨dicts, some_line, lines, keyed⟩ := Script.toLines_keyed held
  rw [Script.text, lines]
  exact readTrace_linesText some_line keyed

/-- A note with letters that must be escaped, one of them beyond sixteen bits, and some bytes. -/
def noteRun : List ScriptCall :=
  [.note "a \"b\"\n\u00e9 𝄞", .event "closed" [("reason", .bytes [1, 255])]]

/-- The file with the note is written, and is read as its lines. -/
theorem scriptText_read_notes : ∃ t text,
    runScript noteRun (Script.fresh ⟨"a.b", "t", ["r"], "zmux-small", "responder", []⟩) = .ok t ∧
      t.text = .ok text ∧ readTrace text = .ok t.toLines := by
  have ran : ∃ t, runScript noteRun
      (Script.fresh ⟨"a.b", "t", ["r"], "zmux-small", "responder", []⟩) = .ok t := ⟨_, rfl⟩
  obtain ⟨t, run⟩ := ran
  -- The two calls are given no dict with a key twice.
  obtain ⟨text, written, read⟩ := scriptText_read _ noteRun t (by simp)
    (by simp [noteRun, ScriptCall.values]) run
  exact ⟨t, text, run, written, read⟩

end Scripts

end Zmux
