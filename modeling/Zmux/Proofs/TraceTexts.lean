import Zmux.Codec.TraceTexts
import Zmux.Proofs.JsonText
import Zmux.Proofs.TraceSuite

/-! The check of the texts of a suite finds what the check of the suite finds. -/

namespace Zmux

open Wire

section Values

variable {value : Value} {fields : Fields}

/-- The JSON form of a value is read back from the file it is written to. -/
theorem loads_fileText (keyed : value.Keyed) :
    ∃ text, fileText value.toJson = .ok text ∧ loads text = .ok value.toJson := by
  obtain ⟨text, written, read⟩ := @loads_dumps value keyed (some 2) "\n" (by simp [isJsonSpace])
  -- The line break behind the text is blank, so it is read over.
  refine ⟨text ++ "\n", ?_, read⟩
  rw [fileText, written, ok_bind, pure_ok]

end Values

section Steps

/-- Lines that are all read are as many dicts. -/
theorem readLines_length {lines : List (List Char)} {dicts : List Fields}
    (read : lines.mapM readLine = .ok dicts) : dicts.length = lines.length := by
  -- The induction is on the lines, each of which gives one dict.
  induction lines generalizing dicts with
  | nil =>
    cases read
    rfl
  | cons line lines ih =>
    simp only [List.mapM_cons, bind_eq_ok, pure_ok, Except.ok.injEq] at read
    obtain ⟨s, -, others, later, rfl⟩ := read
    rw [List.length_cons, List.length_cons, ih later]

/-- Lines that are all read are checked as the dicts of the lines. -/
theorem checkStepTexts_read {lines : List (List Char)} {dicts : List Fields} (tid : String)
    (read : lines.mapM readLine = .ok dicts) (binds : List String) (i : Nat) :
    checkStepTexts tid binds i lines = checkSteps tid binds i dicts := by
  -- A line is read when it is its turn, but no line is left that cannot be read.
  induction lines generalizing dicts binds i with
  | nil =>
    cases read
    rfl
  | cons line lines ih =>
    simp only [List.mapM_cons, bind_eq_ok, pure_ok, Except.ok.injEq] at read
    obtain ⟨s, first, others, later, rfl⟩ := read
    rw [checkStepTexts, first, ok_bind, ih later, checkSteps]

variable {refOk : String → Bool}

/-- The text of a file is checked against its row of the index as its lines against their entry. -/
theorem checkFileText_read {text file : String} {lines : List Fields} {entry : IndexEntry}
    {files : List (Path × List Fields)} (read : readTrace text = .ok lines)
    (named : pathOf file = entry.file) (shown : file = entry.file.text)
    (held : files.lookup entry.file = some lines) :
    checkFileText refOk (profiles.map Prod.fst) file entry.fields text =
      checkEntry refOk files entry := by
  rw [readTrace] at read
  rw [checkFileText, checkEntry, held]
  -- A text without lines was not read, so there is a first line, the header.
  cases split : splitLines text.toList with
  | nil =>
    rw [split] at read
    cases read
    rfl
  | cons first rest =>
    rw [split] at read
    simp only [List.mapM_cons, bind_eq_ok, pure_ok, Except.ok.injEq] at read
    obtain ⟨head, front, dicts, back, rfl⟩ := read
    have length := readLines_length back
    have row : Zmux.entry entry.fields "id" = .ok (.str entry.id) := by
      simp [Zmux.entry, IndexEntry.fields]
    dsimp only
    rw [front, ok_bind, named, row]
    -- The id of the header comes from the place of the file, or there is none for such a place.
    cases expectedId entry.file with
    | error fault => rfl
    | ok expected =>
      rw [ok_bind, ok_bind, checkTrace, checkHeader, checkStepTexts_read _ back, length]
      by_cases same : textAt head "id" = some expected
      · -- The id of the row is compared with that of the header.
        have agree : decide ((Value.str entry.id).text = textAt head "id") = false ↔
            textAt head "id" ≠ some expected ∨ some entry.id ≠ textAt head "id" := by
          rw [decide_eq_false_iff_not, Value.text]
          simp [same]
        rw [if_pos same, ok_bind, pure_ok, ok_bind, reportIf_congr agree, shown]
      · have wrong : false = false ↔
            textAt head "id" ≠ some expected ∨ some entry.id ≠ textAt head "id" :=
          iff_of_true rfl (.inl same)
        rw [if_neg same, pure_ok, ok_bind, reportIf_congr wrong, shown, ok_bind]

/-- The name of a file is taken from its entry. -/
theorem textEntry_file (entry : IndexEntry) :
    textEntry entry.fields "file" = .ok entry.file.text := by
  simp [textEntry, Zmux.entry, IndexEntry.fields, Value.text]

/-- A row of the index is checked as the entry that it was written for. -/
theorem checkRow_written {entry : IndexEntry} {files : List (Path × List Fields)}
    {texts : List (Path × String)} (named : pathOf entry.file.text = entry.file)
    (written : List.Forall₂ (fun row text => row.1 = text.1 ∧ readTrace text.2 = .ok row.2)
      files texts) :
    checkRow refOk (profiles.map Prod.fst) texts entry.fields = checkEntry refOk files entry := by
  rw [checkRow, textEntry_file, ok_bind, named]
  -- The row finds the text of a file exactly where its entry finds the lines.
  have alike := @lookup_rel _ _ _ _ (fun lines text => readTrace text = .ok lines) files texts
    entry.file written
  cases held : files.lookup entry.file with
  | none =>
    rw [held] at alike
    cases found : texts.lookup entry.file with
    | none => rw [checkEntry, held]
    | some text =>
      -- The same files have lines and texts.
      rw [found] at alike
      cases alike
  | some lines =>
    rw [held] at alike
    cases found : texts.lookup entry.file with
    | none =>
      rw [found] at alike
      cases alike
    | some text =>
      rw [found] at alike
      cases alike with
      | some read => exact checkFileText_read read named rfl held

end Steps

section Profiles

/-- The list of parameters of a profile is that of their JSON forms. -/
theorem tpList_toJson (tp : Fields) :
    (Value.list (tpList tp none)).toJson = .list (tpList (fieldsToJson tp) none) := by
  rw [toJson_list]
  congr 1
  simp only [tpList, Option.toList_none, List.map_nil, List.append_nil, List.map_map]
  -- The induction is on the parameters, each of which is written as an entry of its own.
  induction tp with
  | nil => rfl
  | cons field tp ih =>
    rw [fieldsToJson, List.map_cons, List.map_cons, ih]
    rfl

/-- The parameters of a profile are checked in the same way once they are read from a file. -/
theorem checkProfileText_written (row : String × Fields) (parts : Fields × Fields) :
    checkProfileText row.1 (profileValue row parts).2.toJson = checkProfile row.1 row.2 := by
  rw [checkProfile, tpList_toJson]
  rfl

/-- The profiles that are written are named and checked as those of the builder. -/
theorem each_profiles (rows : List (String × Fields)) (parts : List (Fields × Fields))
    (enough : rows.length = parts.length) :
    (fieldsToJson (rows.zipWith profileValue parts)).map Prod.fst = rows.map Prod.fst ∧
      Reports.each (fun row => checkProfileText row.1 row.2)
        (fieldsToJson (rows.zipWith profileValue parts)) =
          Reports.each (fun row => checkProfile row.1 row.2) rows := by
  -- The induction is on the rows, each with the parts of its own profile.
  induction rows generalizing parts with
  | nil => exact ⟨rfl, rfl⟩
  | cons row rows ih =>
    cases parts with
    | nil => cases enough
    | cons first parts =>
      obtain ⟨names, each⟩ := ih parts (Nat.succ.inj enough)
      refine ⟨?_, ?_⟩
      · rw [List.zipWith_cons_cons, fieldsToJson, List.map_cons, names]
        rfl
      · rw [List.zipWith_cons_cons, fieldsToJson, Reports.each, each, Reports.each]
        exact congrArg (fun check => Reports.both check _) (checkProfileText_written row first)

/-- The hooks of all profiles have each key once. -/
theorem testHooks_keyed : (Value.dict testHooks).Keyed := by
  simp [testHooks]

/-- The hooks of profiles with several pipes have each key once. -/
theorem multipathHooks_keyed : (Value.dict multipathHooks).Keyed :=
  keyed_update testHooks_keyed (by simp)

/-- Every dict of the table of profiles has each of its keys once. -/
theorem profileTable_keyed : (Value.dict (profiles.zipWith profileValue profileParts)).Keyed := by
  have rows := profiles_keyed
  -- The parts are written out, so their keys are compared one by one.
  have parts : ∀ parts ∈ profileParts, (Value.dict parts.1).Keyed ∧ (Value.dict parts.2).Keyed := by
    simp only [profileParts, List.forall_mem_cons, List.not_mem_nil, false_imp_iff, implies_true,
      and_true]
    refine ⟨⟨by simp, testHooks_keyed⟩, ⟨by simp [smallConfig], testHooks_keyed⟩,
      ⟨by simp [smallConfig], testHooks_keyed⟩,
      ⟨by simp [smallConfig], keyed_update testHooks_keyed (by simp)⟩,
      ⟨by simp [smallConfig, multipathConfig], multipathHooks_keyed⟩,
      ⟨by simp [smallConfig, multipathConfig], multipathHooks_keyed⟩⟩
  have names := (each_profiles profiles profileParts (by decide)).1
  rw [keys_toJson] at names
  rw [keyed_dict, DistinctKeys, names]
  refine ⟨by decide, ?_⟩
  rw [← List.map_uncurry_zip_eq_zipWith]
  intro field listed
  -- A profile is made of a row of the table and of the parts beside it.
  obtain ⟨⟨row, pair⟩, zipped, rfl⟩ := List.mem_map.mp listed
  obtain ⟨first, second⟩ := List.of_mem_zip zipped
  have inside := rows row first
  obtain ⟨config, test⟩ := parts pair second
  show (Value.dict _).Keyed
  rw [keyed_dict] at inside config test ⊢
  simp [inside, config, test]

end Profiles

section Suites

variable {root : Path} {traces : List Script} {suite built : Suite}

/-- The files of a suite have lines that can be read again, and names that their texts give. -/
structure Suite.Readable (suite : Suite) : Prop where
  lines : ∀ row ∈ suite.files, ∃ dicts : List Fields, dicts ≠ [] ∧
    row.2 = dicts.map fieldsToJson ∧ ∀ fields ∈ dicts, (Value.dict fields).Keyed
  files : ∀ file ∈ suite.files.map Prod.fst, pathOf file.text = file
  index : ∀ entry ∈ suite.index, pathOf entry.file.text = entry.file

/-- A file of a trace is named by its text. -/
theorem traceFile_text {id : String} {file : Path} (named : traceFile root id = .ok file) :
    pathOf file.text = file := by
  -- The file is seen from the root, so its path is relative, as a text without a front is.
  refine Path.joinpath_text ?_ (traceFile_parts named)
  simp only [traceFile, seenFrom, Path.relativeTo] at named
  split at named
  · rename_i found
    split at found
    · cases found
      cases named
      rfl
    · cases found
  · cases named

/-- A suite stays readable when a trace is written to it. -/
theorem Suite.Readable.write {t : Script} (readable : suite.Readable) (keyed : t.Keyed)
    (written : writeTrace root suite t = .ok built) : built.Readable := by
  simp only [writeTrace, bind_eq_ok, pure_ok, Except.ok.injEq] at written
  obtain ⟨file, named, rfl⟩ := written
  have text := traceFile_text named
  -- The file is put in its place, old or new, and its entry is the last one.
  refine ⟨?_, ?_, ?_⟩
  · intro row listed
    rcases mem_put listed with rfl | held
    · exact Script.toLines_keyed keyed
    · exact readable.lines row held
  · intro other listed
    rw [keys_put] at listed
    split at listed
    · exact readable.files other listed
    · rcases List.mem_append.mp listed with held | same
      · exact readable.files other held
      · rw [List.mem_singleton.mp same]
        exact text
  · rw [List.forall_mem_append, List.forall_mem_singleton]
    exact ⟨readable.index, text⟩

/-- A suite stays readable when traces are written to it. -/
theorem buildSuite_readable (readable : suite.Readable) (keyed : ∀ t ∈ traces, t.Keyed)
    (written : buildSuite root traces suite = .ok built) : built.Readable := by
  -- The suite grows by one trace, and stays readable, before the others are written.
  induction traces generalizing suite with
  | nil =>
    cases written
    exact readable
  | cons t traces ih =>
    simp only [buildSuite, bind_eq_ok] at written
    obtain ⟨next, first, written⟩ := written
    rw [List.forall_mem_cons] at keyed
    exact ih (readable.write keyed.1 first) keyed.2 written

/-- The texts of files are read as their lines. -/
theorem files_written {files : List (Path × List Fields)}
    (lines : ∀ row ∈ files, ∃ dicts : List Fields, dicts ≠ [] ∧
      row.2 = dicts.map fieldsToJson ∧ ∀ fields ∈ dicts, (Value.dict fields).Keyed) :
    ∃ texts : List (Path × String), files.mapM (fun row => do
        let text ← linesText row.2
        return (row.1, text)) = Except.ok texts ∧
      List.Forall₂ (fun row text => row.1 = text.1 ∧ readTrace text.2 = .ok row.2) files texts := by
  -- The induction is on the files, whose texts are written and read one by one.
  induction files with
  | nil => exact ⟨[], rfl, .nil⟩
  | cons row files ih =>
    rw [List.forall_mem_cons] at lines
    obtain ⟨dicts, some_line, same, keyed⟩ := lines.1
    obtain ⟨text, written, read⟩ := readTrace_linesText some_line keyed
    obtain ⟨texts, others, alike⟩ := ih lines.2
    refine ⟨(row.1, text) :: texts, ?_, .cons ⟨rfl, ?_⟩ alike⟩
    · rw [List.mapM_cons, same, written, ok_bind, pure_ok, ok_bind, others, ok_bind, pure_ok]
    · rw [same, read]

/-- An entry of the index has each key once. -/
theorem IndexEntry.fields_keyed (entry : IndexEntry) : (Value.dict entry.fields).Keyed := by
  simp [fields]

/-- An entry of the index is its own JSON form. -/
theorem IndexEntry.fields_toJson (entry : IndexEntry) :
    fieldsToJson entry.fields = entry.fields := by
  -- The fields hold texts, a list of texts and a number, which are their own JSON form.
  have refs : (Value.list (entry.refs.map .str)).toJson = .list (entry.refs.map .str) := by
    rw [toJson_list, List.map_map]
    rfl
  simp only [fields, fieldsToJson, refs]
  rfl

/-- The text of an index is read as the fields of its entries. -/
theorem readIndex_written (index : List IndexEntry) : ∃ text,
    fileText (.dict [("traces", .list (index.map fun entry => .dict entry.fields))]) = .ok text ∧
      readIndex text = .ok (index.map IndexEntry.fields) := by
  -- The index is written as it is, for it holds nothing but its own JSON form.
  have same : (Value.dict [("traces", .list (index.map fun entry => .dict entry.fields))]).toJson =
      .dict [("traces", .list (index.map fun entry => .dict entry.fields))] := by
    have rows : (Value.list (index.map fun entry => .dict entry.fields)).toJson =
        .list (index.map fun entry => .dict entry.fields) := by
      rw [toJson_list, List.map_map]
      congr 2
      funext entry
      rw [Function.comp_apply, Value.toJson, entry.fields_toJson]
    rw [Value.toJson, fieldsToJson, rows, fieldsToJson]
  -- Each entry has its keys once, and there is one key around them.
  have keyed :
      (Value.dict [("traces", .list (index.map fun entry => .dict entry.fields))]).Keyed := by
    have rows : ∀ entry ∈ index, (Value.dict entry.fields).Keyed :=
      fun entry _ => entry.fields_keyed
    rw [keyed_dict]
    refine ⟨by simp, ?_⟩
    rw [everyField_cons, keyed_list, List.forall_mem_map]
    exact ⟨rows, by simp⟩
  obtain ⟨text, written, read⟩ := loads_fileText keyed
  rw [same] at written read
  refine ⟨text, written, ?_⟩
  rw [readIndex, read, ok_bind]
  exact mapM_map_ok Value.fields (fun _ => rfl) index

variable {refOk : String → Bool}

/-- Names of files that are missing from others are reported alike, by paths and by texts. -/
theorem report_missing {files others : List Path} (report : String → String)
    (named : ∀ file ∈ files, pathOf file.text = file)
    (known : ∀ file ∈ others, pathOf file.text = file) :
    ((files.map Path.text).filter fun file => file ∉ others.map Path.text).map report =
      (files.filter fun file => file ∉ others).map fun file => report file.text := by
  rw [List.filter_map, List.map_map]
  congr 1
  -- Two files whose names have one text are one file.
  apply List.filter_congr
  intro file listed
  rw [Function.comp_apply, decide_eq_decide, not_iff_not, List.mem_map]
  constructor
  · rintro ⟨other, held, same⟩
    rw [← named file listed, ← same, known other held]
    exact held
  · intro held
    exact ⟨file, held, rfl⟩

/-- The texts of files are written under the names of the files. -/
theorem paths_written {files : List (Path × List Fields)} {texts : List (Path × String)}
    (written : List.Forall₂ (fun row text => row.1 = text.1 ∧ readTrace text.2 = .ok row.2)
      files texts) :
    texts.map Prod.fst = files.map Prod.fst := by
  -- The induction is on the files and their texts, side by side.
  induction written with
  | nil => rfl
  | cons first _ ih => rw [List.map_cons, List.map_cons, ih, first.1]

/-- The rows of the written index are checked as its entries are. -/
theorem checkRows_written {index : List IndexEntry} {files : List (Path × List Fields)}
    {texts : List (Path × String)} (named : ∀ entry ∈ index, pathOf entry.file.text = entry.file)
    (written : List.Forall₂ (fun row text => row.1 = text.1 ∧ readTrace text.2 = .ok row.2)
      files texts) :
    Reports.each (checkRow refOk (profiles.map Prod.fst) texts) (index.map IndexEntry.fields) =
      Reports.each (checkEntry refOk files) index := by
  -- The induction is on the entries, whose rows are checked one by one.
  induction index with
  | nil => rfl
  | cons entry index ih =>
    rw [List.forall_mem_cons] at named
    rw [List.map_cons, Reports.each, Reports.each, ih named.2, checkRow_written named.1 written]

/-- A suite is read from texts: its profiles, the lines of its files and the rows of its index. -/
structure Suite.ReadFrom (suite : Suite) (texts : TraceTexts) : Prop where
  table : loads texts.profiles =
    .ok (Value.dict (profiles.zipWith profileValue profileParts)).toJson
  files : List.Forall₂ (fun row text => row.1 = text.1 ∧ readTrace text.2 = .ok row.2)
    suite.files texts.files
  index : readIndex texts.index = .ok (suite.index.map IndexEntry.fields)

/-- A readable suite is written, and read back from its texts. -/
theorem Suite.Readable.written (readable : suite.Readable) :
    ∃ texts, suite.texts = .ok texts ∧ suite.ReadFrom texts := by
  -- The table of profiles, the files and the index are written one after the other.
  obtain ⟨profilesText, table, loaded⟩ := loads_fileText profileTable_keyed
  obtain ⟨texts, written, alike⟩ := files_written readable.lines
  obtain ⟨index, indexed, rows⟩ := readIndex_written suite.index
  refine ⟨⟨profilesText, texts, index⟩, ?_, loaded, alike, rows⟩
  rw [Suite.texts, profilesJson, table, ok_bind, written, ok_bind, indexed, ok_bind, pure_ok]

variable {texts : TraceTexts}

/-- The check of the texts of a suite finds what the check of the suite finds. -/
theorem Suite.ReadFrom.checked (written : suite.ReadFrom texts) (readable : suite.Readable) :
    checkTraceTexts refOk texts = checkTraces refOk suite := by
  obtain ⟨names, each⟩ := each_profiles profiles profileParts (by decide)
  have entries : ∀ file ∈ suite.index.map IndexEntry.file, pathOf file.text = file := by
    rw [List.forall_mem_map]
    exact readable.index
  have files : ∀ file ∈ (suite.files.map Prod.fst).filter isTraceFile, pathOf file.text = file :=
    fun file member => readable.files file (List.mem_of_mem_filter member)
  have once : ∀ file ∈ (suite.index.map IndexEntry.file).eraseDups, pathOf file.text = file :=
    fun file member => entries file (List.mem_eraseDups.mp member)
  have texted : ((suite.index.map IndexEntry.file).map Path.text).eraseDups =
      (suite.index.map IndexEntry.file).eraseDups.map Path.text := by
    apply eraseDups_map
    intro file member other held same
    rw [← entries file member, same, entries other held]
  -- Paths and their texts stand for each other, so no file is lost or found between the two checks.
  rw [checkTraceTexts, checkTraces, written.table, ok_bind, Value.toJson, Value.fields, ok_bind,
    each, written.index]
  cases Reports.each (fun row => checkProfile row.1 row.2) profiles with
  | error fault => rfl
  | ok reports =>
    -- The names of files are taken from the rows before any of them is checked.
    have listed : (suite.index.map IndexEntry.fields).mapM (fun row => textEntry row "file") =
        .ok ((suite.index.map IndexEntry.file).map Path.text) := by
      rw [mapM_map_ok (fun row => textEntry row "file") textEntry_file, List.map_map]
      rfl
    rw [ok_bind, ok_bind, listed, ok_bind]
    dsimp only
    rw [names, paths_written written.files, checkRows_written readable.index written.files,
      List.length_map, texted,
      report_missing (fun file => "traces: " ++ file ++ " not in index.json") files entries,
      report_missing (fun file => "traces: index.json lists missing " ++ file) once files]
    simp only [List.mem_eraseDups]
    cases Reports.each (checkEntry refOk suite.files) suite.index with
    | error fault => rfl
    | ok found => simp [Reports.both, List.append_assoc]

/-- The inventory of the texts of a suite is that of the suite. -/
theorem Suite.ReadFrom.counted (written : suite.ReadFrom texts) :
    manifestTexts texts = .ok (manifestCounts suite) := by
  -- A row of the index gives back the id and the number of steps of its entry.
  have ids : ∀ entry : IndexEntry, textEntry entry.fields "id" = .ok entry.id := by
    intro entry
    simp [textEntry, Zmux.entry, IndexEntry.fields, Value.text]
  have steps : ∀ entry : IndexEntry, natEntry entry.fields "steps" = .ok entry.steps := by
    intro entry
    simp [natEntry, Zmux.entry, IndexEntry.fields, Value.natural, Value.nat]
  rw [manifestTexts, written.index, ok_bind, mapM_map_ok (fun row => textEntry row "id") ids,
    ok_bind, mapM_map_ok (fun row => natEntry row "steps") steps, ok_bind,
    paths_written written.files, countRows, List.foldl_map]
  rfl

/-- The texts that are written for scripts are checked and counted as the suite of the scripts. -/
theorem traceTexts_checked (refOk : String → Bool) (root : Path) (traces : List Script)
    (suite : Suite) (keyed : ∀ t ∈ traces, t.Keyed) (written : buildSuite root traces ⟨[], []⟩ = .ok suite) :
    ∃ texts, suite.texts = .ok texts ∧ checkTraceTexts refOk texts = checkTraces refOk suite ∧
      manifestTexts texts = .ok (manifestCounts suite) := by
  have nothing : Suite.Readable ⟨[], []⟩ := ⟨by simp, by simp, by simp⟩
  -- The invariant of the writer is all that its readers need.
  have readable := buildSuite_readable nothing keyed written
  obtain ⟨texts, held, read⟩ := readable.written
  exact ⟨texts, held, read.checked readable, read.counted⟩

/-- Two traces of two steps each. -/
theorem traceTexts_checked_short : ∃ suite texts,
    buildSuite ⟨true, ["r"]⟩ ((List.range 2).map shortTrace) ⟨[], []⟩ = .ok suite ∧
      suite.texts = .ok texts ∧
      checkTraceTexts (fun _ => false) texts = checkTraces (fun _ => false) suite ∧
      manifestTexts texts = .ok (manifestCounts suite) := by
  -- The ids are plain, so the suite is built.
  have plain : ∀ t ∈ (List.range 2).map shortTrace, PlainId t.header.id := by
    rw [List.forall_mem_map]
    exact fun i _ => shortHeader_plain i
  -- The traces were run, and no call gave a dict with a key twice.
  have keyed : ∀ t ∈ (List.range 2).map shortTrace, t.Keyed := by
    rw [List.forall_mem_map]
    intro i _
    have run : runScript shortRun (Script.fresh (shortHeader i)) = .ok (shortTrace i) := rfl
    have fresh : (Script.fresh (shortHeader i)).Keyed :=
      ⟨by simp [Script.fresh, shortHeader], by simp [Script.fresh]⟩
    exact runScript_keyed run (by simp [shortRun, ScriptCall.values]) fresh
  obtain ⟨suite, written⟩ := @buildSuite_ok ⟨true, ["r"]⟩ _ plain ⟨[], []⟩
  obtain ⟨texts, held, checked, counted⟩ := traceTexts_checked (fun _ => false) ⟨true, ["r"]⟩
    ((List.range 2).map shortTrace) suite keyed written
  exact ⟨suite, texts, written, held, checked, counted⟩

end Suites

end Zmux
