import Zmux.Proofs.TraceTexts

/-! The check of the texts of a suite depends on what they stand for, and not on how they are spelled. -/

namespace Zmux

open Wire

section Values

mutual

/-- A value that was read holds no byte string, so it is its own JSON form. -/
theorem toJson_ofJson : ∀ json : Json, (Value.ofJson json).toJson = .ofJson json
  | .null | .bool _ | .number _ | .string _ => rfl
  | .array items => by rw [Value.ofJson, Value.toJson, itemsToJson_ofJson items]
  | .object fields => by rw [Value.ofJson, Value.toJson, fieldsToJson_ofJson fields]

/-- The items of a list that was read are their own JSON forms. -/
theorem itemsToJson_ofJson : ∀ items : List Json, itemsToJson (itemsOfJson items) = itemsOfJson items
  | [] => rfl
  | item :: items => by rw [itemsOfJson, itemsToJson, toJson_ofJson item, itemsToJson_ofJson items]

/-- The fields of a dict that was read are their own JSON forms. -/
theorem fieldsToJson_ofJson : ∀ fields : List (String × Json),
    fieldsToJson (fieldsOfJson fields) = fieldsOfJson fields
  | [] => rfl
  | (_, value) :: fields => by
    rw [fieldsOfJson, fieldsToJson, toJson_ofJson value, fieldsToJson_ofJson fields]

end

variable {text : String} {value : Value}

/-- A value that was read has each key once in all its dicts, and is its own JSON form. -/
theorem loads_keyed (read : loads text = .ok value) : value.Keyed ∧ value.toJson = value := by
  rw [loads] at read
  split at read
  · rename_i json found
    cases read
    exact ⟨ofJson_keyed json (readJson_keyed found), toJson_ofJson json⟩
  · cases read

/-- A value that was read is written as a file of its own, which is read as the same value. -/
theorem loads_again (read : loads text = .ok value) :
    ∃ written, fileText value = .ok written ∧ loads written = .ok value := by
  obtain ⟨keyed, same⟩ := loads_keyed read
  have written := loads_fileText keyed
  rwa [same] at written

/-- The dicts of the lines of a file are their own JSON forms, and have each key once. -/
theorem readTrace_keyed {lines : List Fields} (read : readTrace text = .ok lines) :
    lines.map fieldsToJson = lines ∧ ∀ fields ∈ lines, (Value.dict fields).Keyed := by
  rw [readTrace] at read
  -- The induction is on the lines of the text, each of which is read on its own.
  generalize splitLines text.toList = listed at read
  induction listed generalizing lines with
  | nil =>
    cases read
    exact ⟨rfl, by simp⟩
  | cons line others ih =>
    simp only [List.mapM_cons, bind_eq_ok, pure_ok, Except.ok.injEq] at read
    obtain ⟨fields, first, lines, rest, rfl⟩ := read
    obtain ⟨same, keyed⟩ := ih rest
    simp only [readLine, bind_eq_ok] at first
    obtain ⟨value, found, dict⟩ := first
    cases value with
    | dict held =>
      cases dict
      obtain ⟨once, own⟩ := loads_keyed found
      rw [Value.toJson, Value.dict.injEq] at own
      exact ⟨by rw [List.map_cons, own, same], List.forall_mem_cons.mpr ⟨once, keyed⟩⟩
    | _ => cases dict

/-- The lines of a file that was read are written as a file that is read as the same lines. -/
theorem readTrace_again {lines : List Fields} (read : readTrace text = .ok lines)
    (some_line : lines ≠ []) :
    ∃ written, linesText lines = .ok written ∧ readTrace written = .ok lines := by
  obtain ⟨same, keyed⟩ := readTrace_keyed read
  have written := readTrace_linesText some_line keyed
  rwa [same] at written

end Values

section Suites

variable {refOk : String → Bool} {names : List String} {texts again : TraceTexts}

/-- Two files are checked alike where their lines are read as the same dicts. -/
theorem checkFileText_alike {text other file : String} {row : Fields} {lines : List Fields}
    (read : readTrace text = .ok lines) (alike : readTrace other = .ok lines) :
    checkFileText refOk names file row text = checkFileText refOk names file row other := by
  rw [readTrace] at read alike
  -- There are as many lines in both as there are dicts.
  have long := readLines_length read
  have wide := readLines_length alike
  rw [checkFileText, checkFileText]
  cases first : splitLines text.toList with
  | nil =>
    rw [first, List.length_nil] at long
    rw [long] at wide
    rw [List.length_eq_zero_iff.mp wide.symm]
  | cons line rest =>
    cases second : splitLines other.toList with
    | nil =>
      rw [second, List.length_nil] at wide
      rw [wide, first] at long
      cases long
    | cons line' rest' =>
      rw [first] at read
      rw [second] at alike
      simp only [List.mapM_cons, bind_eq_ok, pure_ok, Except.ok.injEq] at read alike
      obtain ⟨head, front, dicts, back, rfl⟩ := read
      obtain ⟨_, begun, _, ended, same⟩ := alike
      cases same
      dsimp only
      rw [front, begun, ok_bind, ok_bind, checkStepTexts_read _ back, checkStepTexts_read _ ended,
        ← readLines_length back, ← readLines_length ended]

/-- Two files stand for the same lines, under the same name. -/
def SameLines (first second : Path × String) : Prop :=
  first.1 = second.1 ∧ ∃ lines, readTrace first.2 = .ok lines ∧ readTrace second.2 = .ok lines

/-- Files that stand for the same lines have the same names. -/
theorem sameLines_paths {files others : List (Path × String)}
    (same : List.Forall₂ SameLines files others) : files.map Prod.fst = others.map Prod.fst := by
  -- The induction is on the files, side by side.
  induction same with
  | nil => rfl
  | cons first _ ih => rw [List.map_cons, List.map_cons, first.1, ih]

/-- A row of the index is checked alike where the files stand for the same lines. -/
theorem checkRow_alike {files others : List (Path × String)}
    (same : List.Forall₂ SameLines files others) (row : Fields) :
    checkRow refOk names files row = checkRow refOk names others row := by
  rw [checkRow, checkRow]
  cases textEntry row "file" with
  | error fault => rfl
  | ok file =>
    rw [ok_bind, ok_bind]
    -- The file of the row is among both, or among neither.
    have alike := @lookup_rel _ _ _ _ (fun text other => ∃ lines, readTrace text = .ok lines ∧
      readTrace other = .ok lines) files others (pathOf file) same
    cases found : files.lookup (pathOf file) with
    | none =>
      rw [found] at alike
      cases held : others.lookup (pathOf file) with
      | none => rfl
      | some other =>
        rw [held] at alike
        cases alike
    | some text =>
      rw [found] at alike
      cases held : others.lookup (pathOf file) with
      | none =>
        rw [held] at alike
        cases alike
      | some other =>
        rw [held] at alike
        cases alike with
        | some both =>
          obtain ⟨lines, read, again⟩ := both
          exact checkFileText_alike read again

/-- Two sets of texts stand for the same values, file by file. -/
structure TraceTexts.Alike (texts again : TraceTexts) : Prop where
  profiles : loads texts.profiles = loads again.profiles
  files : List.Forall₂ SameLines texts.files again.files
  index : loads texts.index = loads again.index

/-- Texts that stand for the same values are checked alike and counted alike. -/
theorem TraceTexts.Alike.checked (alike : texts.Alike again) :
    checkTraceTexts refOk texts = checkTraceTexts refOk again ∧
      manifestTexts texts = manifestTexts again := by
  have rows : readIndex texts.index = readIndex again.index := by
    rw [readIndex, readIndex, alike.index]
  have each : ∀ names, checkRow refOk names texts.files = checkRow refOk names again.files :=
    fun names => funext (checkRow_alike alike.files)
  constructor
  · simp only [checkTraceTexts, alike.profiles, rows, sameLines_paths alike.files, each]
  · simp only [manifestTexts, rows, sameLines_paths alike.files]

/-- All texts can be read, and no file of a trace is empty. -/
structure TraceTexts.Readable (texts : TraceTexts) : Prop where
  profiles : ∃ value, loads texts.profiles = .ok value
  files : ∀ file ∈ texts.files, ∃ lines, lines ≠ [] ∧ readTrace file.2 = .ok lines
  index : ∃ value, loads texts.index = .ok value

/-- A file of a trace is written again as the builder writes it, from the lines it was read as. -/
def WrittenAgain (file again : Path × String) : Prop :=
  file.1 = again.1 ∧ ∃ lines, lines ≠ [] ∧ readTrace file.2 = .ok lines ∧ linesText lines = .ok again.2

/-- The text of a value is written again as the builder writes it. -/
def ValueAgain (text again : String) : Prop :=
  ∃ value, loads text = .ok value ∧ fileText value = .ok again

/-- Texts are written again, each from what it was read as. -/
structure TraceTexts.Rewritten (texts again : TraceTexts) : Prop where
  profiles : ValueAgain texts.profiles again.profiles
  files : List.Forall₂ WrittenAgain texts.files again.files
  index : ValueAgain texts.index again.index

/-- What is written again stands for the same value, and is written as it is after that. -/
theorem ValueAgain.kept {text again : String} (written : ValueAgain text again) :
    loads again = loads text ∧ ValueAgain again again := by
  obtain ⟨value, read, filed⟩ := written
  -- The value that was read is written in one way only, which is read as that value.
  obtain ⟨whole, held, back⟩ := loads_again read
  rw [filed, Except.ok.injEq] at held
  subst held
  exact ⟨back.trans read.symm, value, back, filed⟩

/-- A file that is written again stands for the same lines, and is written as it is after that. -/
theorem WrittenAgain.kept {file again : Path × String} (written : WrittenAgain file again) :
    SameLines again file ∧ WrittenAgain again again := by
  obtain ⟨named, lines, some_line, read, out⟩ := written
  -- The lines that were read are written in one way only, which is read as those lines.
  obtain ⟨whole, held, back⟩ := readTrace_again read some_line
  rw [out, Except.ok.injEq] at held
  subst held
  exact ⟨⟨named.symm, lines, back, read⟩, rfl, lines, some_line, back, out⟩

/-- Texts that are written again stand for the same values, and are written as they are after that. -/
theorem TraceTexts.Rewritten.kept (written : texts.Rewritten again) :
    again.Alike texts ∧ again.Rewritten again := by
  have each : ∀ {files others : List (Path × String)}, List.Forall₂ WrittenAgain files others →
      List.Forall₂ SameLines others files ∧ List.Forall₂ WrittenAgain others others := by
    intro files others written
    -- The induction is on the files, side by side.
    induction written with
    | nil => exact ⟨.nil, .nil⟩
    | cons first _ ih => exact ⟨.cons first.kept.1 ih.1, .cons first.kept.2 ih.2⟩
  have files := each written.files
  have table := written.profiles.kept
  have rows := written.index.kept
  exact ⟨⟨table.1, files.1, rows.1⟩, table.2, files.2, rows.2⟩

end Suites

end Zmux
