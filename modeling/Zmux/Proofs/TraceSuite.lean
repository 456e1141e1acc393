import Mathlib.Data.List.Nodup
import Mathlib.Data.String.Basic
import Zmux.Codec.TraceSuite
import Zmux.Proofs.TraceRuns

/-! The suite of traces: it is found right when each trace is, and no trace is lost or counted twice. -/

namespace Zmux

open Wire

section Files

variable {root file : Path} {id : String}

/-- The parts of an id name directories and a file of their own. -/
def PlainId (id : String) : Prop := ∀ part ∈ splitText '.' id, part ≠ "" ∧ FreeOf '/' part

instance (id : String) : Decidable (PlainId id) :=
  inferInstanceAs (Decidable (∀ part ∈ splitText '.' id, part ≠ "" ∧ FreeOf '/' part))

/-- Parts without separators are directories, where an empty one is left out. -/
theorem joinpath_dirs {dirs : List String} (plain : ∀ part ∈ dirs, FreeOf '/' part)
    (dots : ∀ part ∈ dirs, part ≠ ".") (path : Path) : dirs.foldl Path.joinpath path =
      ⟨path.absolute, path.parts ++ dirs.filter fun part => part ≠ ""⟩ := by
  -- The induction is on the directories, which are joined one after the other.
  induction dirs generalizing path with
  | nil => simp
  | cons part dirs ih =>
    rw [List.forall_mem_cons] at plain dots
    rw [List.foldl_cons, Path.joinpath_plain plain.1 dots.1, ih plain.2 dots.2]
    by_cases empty : part = "" <;> simp [empty]

/-- A part without a dot is not a dot. -/
theorem dot_of_free {part : String} (free : FreeOf '.' part) : part ≠ "." := by
  rintro rfl
  exact free (by decide)

/-- The directories of an id and the part of it that names the file. -/
theorem id_parts (id : String) : ∃ dirs last, splitText '.' id = dirs ++ [last] ∧
    (∀ part ∈ dirs, FreeOf '.' part) ∧ FreeOf '.' last := by
  have free := @splitText_free '.' id
  -- A text is split in at least one part, so there is a last one.
  rcases List.eq_nil_or_concat (splitText '.' id) with nothing | ⟨dirs, last, split⟩
  · exact absurd nothing splitText_ne_nil
  · rw [List.concat_eq_append] at split
    rw [split, List.forall_mem_append, List.forall_mem_singleton] at free
    exact ⟨dirs, last, split, free⟩

/-- An id without separators of paths names a file under the traces. -/
theorem traceFile_free {dirs : List String} {last : String} (split : splitText '.' id = dirs ++ [last])
    (free : FreeOf '/' id) : traceFile root id = .ok
      ⟨false, ["fixtures", "traces"] ++ (dirs.filter fun part => part ≠ "") ++ [last ++ ".ndjson"]⟩ := by
  have dots := @splitText_free '.' id
  have plain := (@freeOf_parts '.' id '/' (by decide)).mp free
  rw [split, List.forall_mem_append, List.forall_mem_singleton] at dots plain
  -- The traces are two directories below the root.
  have base : (root.joinpath "fixtures").joinpath "traces" =
      ⟨root.absolute, root.parts ++ ["fixtures", "traces"]⟩ := by
    rw [Path.joinpath_plain (by decide) (by decide), Path.joinpath_plain (by decide) (by decide)]
    simp
  -- The suffix makes the last part neither empty nor a dot.
  have named : FreeOf '/' (last ++ ".ndjson") := by
    have suffix : '/' ∉ ".ndjson".toList := by decide
    simp only [FreeOf, String.toList_append, List.mem_append, not_or]
    exact ⟨plain.2, suffix⟩
  have filled : last ++ ".ndjson" ≠ "" := by
    intro empty
    have letters := congrArg String.toList empty
    simp [String.toList_append] at letters
  have dotted : last ++ ".ndjson" ≠ "." := by
    intro dot
    have letters := congrArg (fun text => text.toList.length) dot
    simp [String.toList_append] at letters
  -- Only the last part is given the suffix.
  have pieces : (dirs ++ [last]).dropLast ++
      ((dirs ++ [last]).getLast?.toList.map fun last => last ++ ".ndjson") =
        dirs ++ [last ++ ".ndjson"] := by simp
  rw [traceFile]
  simp only [split, pieces, base]
  rw [List.foldl_append, joinpath_dirs plain.1 fun part member => dot_of_free (dots.1 part member)]
  rw [List.foldl_cons, List.foldl_nil, Path.joinpath_plain named dotted, if_neg filled, seenFrom,
    Path.relativeTo]
  simp

/-- The parts of a file of a trace are proper ones, whatever the id was. -/
theorem traceFile_parts (named : traceFile root id = .ok file) :
    ∀ part ∈ file.parts, Path.Proper part := by
  rw [traceFile] at named
  simp only [seenFrom, Path.relativeTo] at named
  have base : (root.joinpath "fixtures").joinpath "traces" =
      ⟨root.absolute, root.parts ++ ["fixtures", "traces"]⟩ := by
    rw [Path.joinpath_plain (by decide) (by decide), Path.joinpath_plain (by decide) (by decide)]
    simp
  -- What is joined to the traces either stays below them, or begins anew at the root.
  obtain ⟨rest, free, held⟩ := @Path.joinpath_proper ((root.joinpath "fixtures").joinpath "traces")
    ((splitText '.' id).dropLast ++ (splitText '.' id).getLast?.toList.map fun last =>
      last ++ ".ndjson") root.parts ["fixtures", "traces"] (by rw [base]; exact .inl rfl) (by decide)
  split at named
  · rename_i seen found
    split at found
    · cases found
      cases named
      intro part member
      -- In both cases the parts behind those of the root are proper ones.
      rcases held with same | same
      · rw [same, List.drop_left] at member
        exact free part member
      · rw [same] at member
        exact free part (List.mem_of_mem_drop member)
    · cases found
  · cases named

/-- The id that a path stands for is that of its directories and its name without the suffix. -/
theorem expectedId_eq_ok {name : String} : expectedId file = .ok name ↔ file.absolute = false ∧
    ∃ dirs last, file.parts = ["fixtures", "traces"] ++ dirs ++ [last] ∧
      name = joinText '.' (dirs ++ [Path.stem last]) := by
  -- The suffix is taken off the last part, and all others stay.
  have whole : ∀ dirs last, (⟨false, dirs ++ [last]⟩ : Path).withoutSuffix.parts =
      dirs ++ [Path.stem last] := by
    intro dirs last
    simp [Path.withoutSuffix]
  constructor
  · intro expected
    simp only [expectedId, bind_eq_ok, seenFrom, Path.relativeTo] at expected
    obtain ⟨inside, seen, named⟩ := expected
    split at seen
    · rename_i found
      split at found
      · rename_i under
        obtain ⟨relative, parts, same⟩ := under
        cases found
        cases seen
        split at named
        · cases named
        · rename_i filled
          rw [← same, List.drop_left] at filled named
          -- A path that is not empty has a last part.
          rcases List.eq_nil_or_concat parts with nothing | ⟨dirs, last, split⟩
          · exact absurd nothing filled
          · rw [List.concat_eq_append] at split
            rw [pure_ok, Except.ok.injEq, split, whole] at named
            refine ⟨relative.symm, dirs, last, ?_, named.symm⟩
            rw [← same, split, ← List.append_assoc]
            rfl
      · cases found
    · cases seen
  · rintro ⟨relative, dirs, last, parts, rfl⟩
    -- The path is seen from the traces as the parts behind the first two.
    have under : file.relativeTo tracesDir = some ⟨false, dirs ++ [last]⟩ := by
      rw [Path.relativeTo, if_pos]
      · rw [parts]
        rfl
      · refine ⟨relative.symm, dirs ++ [last], ?_⟩
        rw [parts, List.append_assoc]
        rfl
    rw [expectedId, seenFrom, under, ok_bind, if_neg (by simp), pure_ok, whole]

/-- The id that a file stands for has no separator of paths. -/
theorem expectedId_free {name : String} (named : traceFile root id = .ok file)
    (expected : expectedId file = .ok name) : FreeOf '/' name := by
  have free := fun part member => (traceFile_parts named part member).1
  obtain ⟨-, dirs, last, parts, rfl⟩ := expectedId_eq_ok.mp expected
  rw [parts, List.forall_mem_append, List.forall_mem_append, List.forall_mem_singleton] at free
  intro listed
  rw [mem_joinText (by decide)] at listed
  -- A letter of the joined text is one of its parts, or a dot.
  obtain ⟨part, member, held⟩ := listed
  rw [List.mem_append, List.mem_singleton] at member
  rcases member with earlier | rfl
  · exact free.1.2 part earlier held
  · exact free.2 (Path.mem_stem held)

/-- The id that a path stands for is the one it was made of only if that is plain. -/
theorem plainId_of_expected (named : traceFile root id = .ok file)
    (expected : expectedId file = .ok id) : PlainId id := by
  have free := expectedId_free named expected
  obtain ⟨dirs, last, split, dots, dot⟩ := id_parts id
  have plain := (@freeOf_parts '.' id '/' (by decide)).mp free
  rw [traceFile_free split free, Except.ok.injEq] at named
  subst named
  -- The file has the directories that are not empty, and the last part with its suffix.
  obtain ⟨-, others, name, parts, same⟩ := expectedId_eq_ok.mp expected
  obtain ⟨rfl, rfl⟩ : (dirs.filter fun part => part ≠ "") = others ∧ last ++ ".ndjson" = name := by
    have tails := List.append_inj' parts rfl
    rw [List.append_cancel_left_eq, List.cons.injEq] at tails
    exact ⟨tails.1, tails.2.1⟩
  have kept : ∀ part ∈ dirs.filter fun part => part ≠ "", FreeOf '.' part :=
    fun part member => dots part (List.mem_of_mem_filter member)
  have joined := @joinText_splitText '.' id
  rw [split] at joined
  -- Taking off the suffix gives the last part, unless nothing is in front of it.
  have stem : Path.stem (last ++ ".ndjson") = if last = "" then ".ndjson" else last := by
    have suffix := @Path.stem_suffix last "ndjson" (by decide) (by decide)
    rwa [String.append_assoc] at suffix
  rw [stem, ← joined] at same
  by_cases empty : last = ""
  · -- A file with nothing but a suffix stands for an id with another part behind it.
    have cut : joinText '.' ((dirs.filter fun part => part ≠ "") ++ [".ndjson"]) =
        joinText '.' ((dirs.filter fun part => part ≠ "") ++ ["", "ndjson"]) := by
      have text : ".ndjson" = String.ofList ('.' :: "ndjson".toList) := by decide
      rw [text, joinText_split_last]
    rw [if_pos empty, cut] at same
    have parted := joinText_injective (List.forall_mem_append.mpr
      ⟨dots, List.forall_mem_singleton.mpr dot⟩) (by simp) (List.forall_mem_append.mpr
        ⟨kept, by decide⟩) (by simp) same
    have ends := congrArg List.getLast? parted
    simp [empty] at ends
  · rw [if_neg empty] at same
    -- Otherwise the parts are those of the id, none of which was left out.
    have parted := joinText_injective (List.forall_mem_append.mpr
      ⟨dots, List.forall_mem_singleton.mpr dot⟩) (by simp) (List.forall_mem_append.mpr
        ⟨kept, List.forall_mem_singleton.mpr dot⟩) (by simp) same
    rw [List.append_left_inj] at parted
    rw [split, List.forall_mem_append, List.forall_mem_singleton] at plain
    rw [PlainId, split, List.forall_mem_append, List.forall_mem_singleton]
    refine ⟨fun part member => ⟨?_, plain.1 part member⟩, empty, plain.2⟩
    rw [parted] at member
    simpa using List.of_mem_filter member

/-- The file of a plain id is one of the traces, and stands for the id. -/
theorem expectedId_traceFile (plain : PlainId id) :
    ∃ file, traceFile root id = .ok file ∧ expectedId file = .ok id ∧ isTraceFile file = true := by
  obtain ⟨dirs, last, split, dots, dot⟩ := id_parts id
  have free : FreeOf '/' id :=
    (@freeOf_parts '.' id '/' (by decide)).mpr fun part member => (plain part member).2
  have filled := fun part member => (plain part member).1
  rw [split, List.forall_mem_append, List.forall_mem_singleton] at filled
  -- No directory is left out, since none is empty.
  have kept : (dirs.filter fun part => part ≠ "") = dirs := by
    rw [List.filter_eq_self]
    intro part member
    exact decide_eq_true (filled.1 part member)
  refine ⟨_, traceFile_free split free, ?_, ?_⟩
  · refine expectedId_eq_ok.mpr ⟨rfl, _, _, rfl, ?_⟩
    have suffix := @Path.stem_suffix last "ndjson" (by decide) (by decide)
    rw [String.append_assoc, if_neg filled.2] at suffix
    -- The last part is not empty, so taking off the suffix gives it back.
    have stem : Path.stem (last ++ ".ndjson") = last := suffix
    rw [stem, kept, ← split, joinText_splitText]
  · have name := @List.getLast?_concat _
      (["fixtures", "traces"] ++ dirs.filter fun part => part ≠ "") (last ++ ".ndjson")
    have inside : (Path.relativeTo ⟨false, ["fixtures", "traces"]
        ++ (dirs.filter fun part => part ≠ "") ++ [last ++ ".ndjson"]⟩ tracesDir).isSome = true := by
      simp [Path.relativeTo, tracesDir]
    rw [isTraceFile, inside, name]
    simp [String.toList_append]

end Files

section Suite

variable {root : Path} {traces : List Script} {suite built : Suite} {t : Script}

/-- What is written of a trace when it has this file. -/
def Script.entry (t : Script) (file : Path) : IndexEntry :=
  ⟨t.header.id, file, t.header.title, t.header.refs, t.header.profile, t.steps.length⟩

/-- Each trace is written to a file, and gets its entry in the index. -/
theorem buildSuite_index (written : buildSuite root traces suite = .ok built) :
    ∃ files : List Path, List.Forall₂ (fun t file => traceFile root t.header.id = .ok file) traces files ∧
      built.index = suite.index ++ (traces.zip files).map (fun row => row.1.entry row.2) ∧
      built.files = (traces.zip files).foldl (fun held row => put held row.2 row.1.toLines)
        suite.files := by
  -- The induction is on the traces, each of which is written behind those before it.
  induction traces generalizing suite with
  | nil =>
    cases written
    exact ⟨[], .nil, by simp, rfl⟩
  | cons t traces ih =>
    simp only [buildSuite, writeTrace, bind_eq_ok, pure_ok, Except.ok.injEq] at written
    obtain ⟨next, ⟨file, named, rfl⟩, written⟩ := written
    obtain ⟨files, each, index, held⟩ := ih written
    exact ⟨file :: files, .cons named each, by rw [index]; simp [Script.entry], held⟩

/-- All traces are those of the groups, whose ids must be distinct. -/
theorem allTraces_eq_some {groups : List (List Script)} : allTraces groups = some traces ↔
    groups.flatten = traces ∧ (traces.map fun t => t.header.id).Nodup := by
  -- No id is counted more than once when they are distinct.
  have once : ∀ ids : List String, (ids.filter fun id => ids.count id > 1) = [] ↔ ids.Nodup := by
    intro ids
    rw [List.nodup_iff_count, List.filter_eq_nil_iff]
    constructor
    · intro single id
      by_cases listed : id ∈ ids
      · simpa using single id listed
      · rw [List.count_eq_zero_of_not_mem listed]
        omega
    · intro single id _
      simpa using single id
  rw [allTraces]
  split
  · rename_i single
    rw [Option.some.injEq]
    constructor
    · rintro rfl
      exact ⟨rfl, (once _).mp single⟩
    · exact And.left
  · -- An id that comes twice is one that is counted more than once.
    rename_i more
    constructor
    · intro nothing
      cases nothing
    · rintro ⟨rfl, distinct⟩
      exact absurd ((once _).mpr distinct) more

/-- Traces with distinct plain ids have files of their own, among those of traces. -/
theorem plain_files {files : List Path}
    (named : List.Forall₂ (fun t file => traceFile root t.header.id = .ok file) traces files)
    (plain : ∀ t ∈ traces, PlainId t.header.id) :
    files.map expectedId = (traces.map fun t => t.header.id).map .ok ∧
      ∀ file ∈ files, isTraceFile file = true := by
  -- The induction is on the traces, side by side with their files.
  induction named with
  | nil => simp
  | cons first named ih =>
    rw [List.forall_mem_cons] at plain
    obtain ⟨file, same, expected, listed⟩ := @expectedId_traceFile root _ plain.1
    rw [same, Except.ok.injEq] at first
    subst first
    rw [List.map_cons, List.map_cons, List.map_cons, expected, List.forall_mem_cons, (ih plain.2).1]
    exact ⟨rfl, listed, (ih plain.2).2⟩

/-- Traces with plain ids can be written. -/
theorem buildSuite_ok (plain : ∀ t ∈ traces, PlainId t.header.id) (suite : Suite) :
    ∃ built, buildSuite root traces suite = .ok built := by
  -- The induction is on the traces, each of which has a file.
  induction traces generalizing suite with
  | nil => exact ⟨suite, rfl⟩
  | cons t traces ih =>
    rw [List.forall_mem_cons] at plain
    obtain ⟨file, named, -⟩ := @expectedId_traceFile root _ plain.1
    rw [buildSuite, writeTrace, named]
    exact ih plain.2 _

/-- A suite that keeps every trace in a file of its own, among those of traces. -/
structure Suite.Keeps (suite : Suite) (root : Path) (traces : List Script) (files : List Path) : Prop where
  named : List.Forall₂ (fun t file => traceFile root t.header.id = .ok file) traces files
  own : files.Nodup
  listed : ∀ file ∈ files, isTraceFile file = true
  index : suite.index = (traces.zip files).map fun row => row.1.entry row.2
  held : suite.files = (traces.zip files).map fun row => (row.2, row.1.toLines)

/-- Traces with distinct plain ids are all kept. -/
theorem buildSuite_keeps (distinct : (traces.map fun t => t.header.id).Nodup)
    (plain : ∀ t ∈ traces, PlainId t.header.id) (written : buildSuite root traces ⟨[], []⟩ = .ok suite) :
    ∃ files, suite.Keeps root traces files := by
  obtain ⟨files, named, index, held⟩ := buildSuite_index written
  obtain ⟨ids, listed⟩ := plain_files named plain
  -- Two traces with one file would have one id.
  have own : files.Nodup := by
    apply List.Nodup.of_map expectedId
    rw [ids]
    exact distinct.map fun id other same => Except.ok.inj same
  -- Files of their own are written one behind the other, and none is written over.
  have keys : (traces.zip files).map Prod.snd = files :=
    List.map_snd_zip (Nat.le_of_eq named.length_eq.symm)
  refine ⟨files, named, own, listed, index, ?_⟩
  rw [held, foldl_put, List.nil_append]
  rwa [List.map_nil, List.nil_append, keys]

namespace Suite.Keeps

variable {files : List Path}

/-- Every trace has a file, and an entry in the index. -/
theorem paired (keeps : suite.Keeps root traces files) (listed : t ∈ traces) :
    ∃ file, (t, file) ∈ traces.zip files ∧ t.entry file ∈ suite.index := by
  -- There are as many files as traces.
  have fronts : (traces.zip files).map Prod.fst = traces :=
    List.map_fst_zip (Nat.le_of_eq keeps.named.length_eq)
  rw [← fronts, List.mem_map] at listed
  obtain ⟨⟨_, file⟩, paired, rfl⟩ := listed
  refine ⟨file, paired, ?_⟩
  rw [keeps.index]
  exact List.mem_map.mpr ⟨_, paired, rfl⟩

/-- The files that are kept are those of the traces. -/
theorem stored (keeps : suite.Keeps root traces files) : suite.files.map Prod.fst = files := by
  rw [keeps.held, List.map_map]
  exact List.map_snd_zip (Nat.le_of_eq keeps.named.length_eq.symm)

/-- The files in the index are those of the traces. -/
theorem indexed (keeps : suite.Keeps root traces files) :
    suite.index.map IndexEntry.file = files := by
  rw [keeps.index, List.map_map]
  exact List.map_snd_zip (Nat.le_of_eq keeps.named.length_eq.symm)

/-- There is one entry in the index for each trace. -/
theorem length_index (keeps : suite.Keeps root traces files) :
    suite.index.length = traces.length := by
  rw [keeps.index, List.length_map, List.length_zip, keeps.named.length_eq, Nat.min_self]

/-- The file of a trace holds the lines of it. -/
theorem found (keeps : suite.Keeps root traces files) {file : Path}
    (paired : (t, file) ∈ traces.zip files) : suite.files.lookup file = some t.toLines := by
  -- No other trace has the file.
  apply lookup_of_nodup
  · rw [keeps.stored]
    exact keeps.own
  · rw [keeps.held]
    exact List.mem_map.mpr ⟨_, paired, rfl⟩

end Suite.Keeps

/-- The parameters of every profile are valid. -/
theorem checkProfile_clean : ∀ row ∈ profiles, Reports.Clean (checkProfile row.1 row.2) := by
  -- There are few profiles, and each one is checked.
  have each : ∀ row ∈ profiles, checkProfile row.1 row.2 = .ok [] := by decide +kernel
  exact each

/-- A file holds the id of its trace in its first line. -/
theorem textAt_id : textAt (fieldsToJson t.header.fields) "id" = some t.header.id := by
  rfl

variable {refOk : String → Bool}

/-- A file with the lines of a trace is right when the trace is and the id stands for the file. -/
theorem checkEntry_clean {files : List (Path × List Fields)} {file : Path}
    (held : files.lookup file = some t.toLines) : Reports.Clean (checkEntry refOk files (t.entry file)) ↔
      expectedId file = .ok t.header.id ∧ Reports.Clean (checkTrace refOk t.toLines) := by
  -- The file of the entry is the one that holds the lines.
  have found : files.lookup (t.entry file).file = some t.toLines := held
  rw [checkEntry, found, Script.toLines, Reports.clean_bind]
  simp only [Reports.clean_both, Reports.clean_ok, reportIf_eq_nil, textAt_id, Script.entry,
    Option.some.injEq, ne_eq, not_or, not_not]
  constructor
  · rintro ⟨expected, named, ⟨rfl, -⟩, checked⟩
    exact ⟨named, checked⟩
  · rintro ⟨named, checked⟩
    exact ⟨_, named, ⟨rfl, trivial⟩, checked⟩

/-- A file that is there and right is named by the id that the index has for it. -/
theorem checkEntry_expected {files : List (Path × List Fields)} {entry : IndexEntry}
    (held : entry.file ∈ files.map Prod.fst) (clean : Reports.Clean (checkEntry refOk files entry)) :
    expectedId entry.file = .ok entry.id := by
  rw [checkEntry] at clean
  split at clean
  · -- A file that is there is found.
    rename_i absent
    obtain ⟨⟨file, lines⟩, listed, rfl⟩ := List.mem_map.mp held
    rw [List.lookup_eq_none_iff] at absent
    exact absurd (beq_self_eq_true entry.file) (by simpa using absent _ listed)
  · cases clean
  · obtain ⟨expected, named, checked⟩ := Reports.clean_bind.mp clean
    rw [Reports.clean_both, Reports.clean_ok, reportIf_eq_nil, not_or, not_not, not_not] at checked
    rw [named, Except.ok.injEq, ← Option.some.injEq, ← checked.1.1, checked.1.2]

/-- What the check of the whole suite comes down to. -/
theorem checkTraces_clean : Reports.Clean (checkTraces refOk suite) ↔
    (∀ file ∈ (suite.files.map Prod.fst).filter isTraceFile, file ∈ suite.index.map IndexEntry.file) ∧
      (∀ file ∈ suite.index.map IndexEntry.file,
        file ∈ (suite.files.map Prod.fst).filter isTraceFile) ∧
        (∀ entry ∈ suite.index, Reports.Clean (checkEntry refOk suite.files entry)) ∧
          100 ≤ suite.index.length := by
  -- The reports are those of the profiles, of the files that are missing on a side, of the
  -- entries, and of their number.
  rw [checkTraces, Reports.clean_both, Reports.clean_both, Reports.clean_both, Reports.clean_each,
    Reports.clean_each, Reports.clean_ok, Reports.clean_ok, reportIf_eq_nil, List.append_eq_nil_iff,
    List.map_eq_nil_iff, List.map_eq_nil_iff, List.filter_eq_nil_iff, List.filter_eq_nil_iff, not_lt]
  simp only [List.mem_eraseDups, decide_eq_true_eq, not_not]
  constructor
  · rintro ⟨-, ⟨listed, kept⟩, checked, enough⟩
    exact ⟨listed, kept, checked, enough⟩
  · rintro ⟨listed, kept, checked, enough⟩
    exact ⟨checkProfile_clean, ⟨listed, kept⟩, checked, enough⟩

/-- The ids of a suite that is found right are plain. -/
theorem plain_of_clean (written : buildSuite root traces ⟨[], []⟩ = .ok suite)
    (clean : Reports.Clean (checkTraces refOk suite)) : ∀ t ∈ traces, PlainId t.header.id := by
  obtain ⟨-, kept, checked, -⟩ := checkTraces_clean.mp clean
  obtain ⟨files, named, index, -⟩ := buildSuite_index written
  rw [List.nil_append] at index
  -- There are as many files as traces.
  have fronts : (traces.zip files).map Prod.fst = traces :=
    List.map_fst_zip (Nat.le_of_eq named.length_eq)
  rw [← fronts, List.forall_mem_map]
  rintro ⟨t, file⟩ paired
  have entered : t.entry file ∈ suite.index := by
    rw [index]
    exact List.mem_map.mpr ⟨_, paired, rfl⟩
  -- The file is there, so the check compares the id with the one that the path stands for.
  have stored := List.mem_of_mem_filter (kept file (List.mem_map.mpr ⟨_, entered, rfl⟩))
  exact plainId_of_expected (List.forall₂_zip named paired)
    (checkEntry_expected stored (checked _ entered))

/-- A suite is built and found right exactly when its ids are plain, its traces are right, and there are enough. -/
theorem suite_checked (refOk : String → Bool) (root : Path) (groups : List (List Script))
    (traces : List Script) (gathered : allTraces groups = some traces) :
    (∃ suite, buildSuite root traces ⟨[], []⟩ = .ok suite ∧ checkTraces refOk suite = .ok []) ↔
      (∀ t ∈ traces, PlainId t.header.id ∧ checkTrace refOk t.toLines = .ok []) ∧
        100 ≤ traces.length := by
  have distinct := (allTraces_eq_some.mp gathered).2
  constructor
  · rintro ⟨suite, written, clean⟩
    -- A suite without reports has plain ids, so every trace is kept, and checked by its entry.
    have plain := plain_of_clean written clean
    obtain ⟨files, keeps⟩ := buildSuite_keeps distinct plain written
    obtain ⟨-, -, checked, enough⟩ := checkTraces_clean.mp clean
    rw [keeps.length_index] at enough
    refine ⟨fun t listed => ⟨plain t listed, ?_⟩, enough⟩
    obtain ⟨file, paired, entered⟩ := keeps.paired listed
    exact ((checkEntry_clean (keeps.found paired)).mp (checked _ entered)).2
  · rintro ⟨right, enough⟩
    -- Plain ids give files of their own, which the index and the directory agree on.
    have plain : ∀ t ∈ traces, PlainId t.header.id := fun t listed => (right t listed).1
    obtain ⟨suite, written⟩ := @buildSuite_ok root traces plain ⟨[], []⟩
    obtain ⟨files, keeps⟩ := buildSuite_keeps distinct plain written
    have kept : (suite.files.map Prod.fst).filter isTraceFile = suite.index.map IndexEntry.file := by
      rw [keeps.stored, keeps.indexed, List.filter_eq_self]
      exact keeps.listed
    refine ⟨suite, written, checkTraces_clean.mpr ⟨?_, ?_, ?_, ?_⟩⟩
    · rw [kept]
      exact fun file member => member
    · rw [kept]
      exact fun file member => member
    · rw [keeps.index, List.forall_mem_map]
      rintro ⟨t, file⟩ paired
      have listed : t ∈ traces := (List.of_mem_zip paired).1
      -- The file of an entry stands for its id, and holds the lines of a trace that is right.
      obtain ⟨other, expected, same, -⟩ := @expectedId_traceFile root _ (plain t listed)
      rw [List.forall₂_zip keeps.named paired, Except.ok.injEq] at expected
      subst expected
      exact (checkEntry_clean (keeps.found paired)).mpr ⟨same, (right t listed).2⟩
    · rw [keeps.length_index]
      exact enough

/-- Two calls that are legal in every trace. -/
def shortRun : List ScriptCall := [.writable 0 true, .writable 0 false]

/-- The parts of the ids of short traces, which differ in the length of the second one. -/
def shortParts (i : Nat) : List String := ["a", String.ofList (List.replicate (i + 1) 't')]

/-- The headers of short traces. -/
def shortHeader (i : Nat) : Header :=
  ⟨joinText '.' (shortParts i), "t", [], "zmux-small", "responder", []⟩

/-- A trace of the two calls. -/
def shortTrace (i : Nat) : Script :=
  ((Script.fresh (shortHeader i)).writable 0 true).writable 0 false

/-- No other letters are in the parts. -/
theorem shortParts_free {letter : Char} (other : letter ∉ ['a', 't']) (i : Nat) :
    ∀ part ∈ shortParts i, FreeOf letter part := by
  rw [List.mem_cons, List.mem_singleton, not_or] at other
  rw [shortParts, List.forall_mem_cons, List.forall_mem_singleton]
  constructor
  · simpa [FreeOf] using other.1
  · simpa [FreeOf, List.mem_replicate] using other.2

/-- The ids of short traces are plain. -/
theorem shortHeader_plain (i : Nat) : PlainId (shortHeader i).id := by
  rw [PlainId, shortHeader, splitText_joinText (shortParts_free (by decide) i) (by simp [shortParts])]
  intro part listed
  refine ⟨?_, shortParts_free (by decide) i part listed⟩
  -- None of the parts is empty.
  rintro rfl
  simp [shortParts, List.replicate_succ] at listed

/-- No two short traces have one id. -/
theorem shortHeader_injective : Function.Injective fun i => (shortHeader i).id := by
  intro i j same
  have parts := joinText_injective (shortParts_free (by decide) i) (by simp [shortParts])
    (shortParts_free (by decide) j) (by simp [shortParts]) same
  -- The parts are told apart by their lengths.
  have lengths := congrArg (fun parts => (parts.map String.length).sum) parts
  simpa [shortParts] using lengths

/-- Short traces can be gathered in one group. -/
theorem shortTraces_gathered (n : Nat) :
    allTraces [(List.range n).map shortTrace] = some ((List.range n).map shortTrace) := by
  rw [allTraces_eq_some, List.flatten_singleton, List.map_map]
  exact ⟨rfl, List.nodup_range.map shortHeader_injective⟩

/-- A short trace is right. -/
theorem shortTrace_checked (i : Nat) : checkTrace refOk (shortTrace i).toLines = .ok [] := by
  -- The trace is a run of two calls, both of them legal.
  have run : runScript shortRun (Script.fresh (shortTrace i).header) = .ok (shortTrace i) := rfl
  obtain ⟨steps, held, -, written⟩ := runScript_appends
    (by simp [shortRun, ScriptCall.Documented]) run
  rw [show steps = (shortTrace i).steps from held.symm] at written
  refine (checkTrace_eq_nil written).mpr ⟨?_, ?_, ?_⟩
  · show (shortHeader i).Known refOk
    simp [shortHeader, Header.Known, profiles]
  · simp [shortRun, LegalFrom, ScriptCall.Legal]
  · simp [shortRun]

/-- One hundred short traces are a suite in which nothing is wrong. -/
theorem suite_checked_short : ∃ suite,
    buildSuite ⟨true, ["r"]⟩ ((List.range 100).map shortTrace) ⟨[], []⟩ = .ok suite ∧
      checkTraces (fun _ => false) suite = .ok [] := by
  refine (suite_checked _ ⟨true, ["r"]⟩ [(List.range 100).map shortTrace] _
    (shortTraces_gathered 100)).mpr ⟨?_, ?_⟩
  · rw [List.forall_mem_map]
    exact fun i _ => ⟨shortHeader_plain i, shortTrace_checked i⟩
  · rw [List.length_map, List.length_range]

end Suite

section Inventory

variable {root : Path} {traces : List Script} {suite : Suite} {files : List Path}

/-- The group of a trace, which is the first part of its id. -/
def Script.group (t : Script) : String := (splitText '.' t.header.id).headD ""

/-- The groups are counted in the index as they are in the traces. -/
theorem Suite.Keeps.groups (keeps : suite.Keeps root traces files) :
    countRows (fun entry : IndexEntry => (splitText '.' entry.id).headD "") suite.index =
      countRows Script.group traces := by
  -- There are as many files as traces.
  have fronts : (traces.zip files).map Prod.fst = traces :=
    List.map_fst_zip (Nat.le_of_eq keeps.named.length_eq)
  rw [keeps.index, countRows, List.foldl_map, countRows, ← fronts, List.foldl_map, fronts]
  rfl

/-- The steps in the index are those of the traces. -/
theorem Suite.Keeps.steps (keeps : suite.Keeps root traces files) :
    (suite.index.map IndexEntry.steps).sum = (traces.map fun t => t.steps.length).sum := by
  -- There are as many files as traces.
  have fronts : (traces.zip files).map Prod.fst = traces :=
    List.map_fst_zip (Nat.le_of_eq keeps.named.length_eq)
  rw [keeps.index, List.map_map, ← fronts, List.map_map, fronts]
  rfl

/-- Every trace is kept in a file of its own, and counted once under its group, with all of its steps. -/
theorem suite_counts (root : Path) (groups : List (List Script)) (traces : List Script) (suite : Suite)
    (gathered : allTraces groups = some traces) (plain : ∀ t ∈ traces, PlainId t.header.id)
    (written : buildSuite root traces ⟨[], []⟩ = .ok suite) :
    (∀ t ∈ traces, ∃ file, traceFile root t.header.id = .ok file ∧
      suite.files.lookup file = some t.toLines) ∧
    (manifestCounts suite).traces = traces.length ∧
      (manifestCounts suite).traceSteps = (traces.map fun t => t.steps.length).sum ∧
      ((manifestCounts suite).tracesByGroup.map Prod.fst).Pairwise (· < ·) ∧
      ((manifestCounts suite).tracesByGroup.map Prod.snd).sum = traces.length ∧
      ∀ group n, (group, n) ∈ (manifestCounts suite).tracesByGroup ↔
        0 < n ∧ n = traces.countP fun t => t.group = group := by
  obtain ⟨files, keeps⟩ := buildSuite_keeps (allTraces_eq_some.mp gathered).2 plain written
  obtain ⟨distinct, -, -, total⟩ := @countRows_spec _ _ _ Script.group traces
  -- The counts of the groups are those of the traces, in another order.
  have sorted : (manifestCounts suite).tracesByGroup.Perm (countRows Script.group traces) := by
    rw [← keeps.groups]
    exact List.mergeSort_perm _ _
  refine ⟨?_, ?_, keeps.steps, ?_, ?_, ?_⟩
  · intro t listed
    obtain ⟨file, paired, -⟩ := keeps.paired listed
    exact ⟨file, List.forall₂_zip keeps.named paired, keeps.found paired⟩
  · -- Every file of the suite is one of a trace.
    have kept : (suite.files.map Prod.fst).filter isTraceFile = files := by
      rw [keeps.stored, List.filter_eq_self]
      exact keeps.listed
    rw [manifestCounts, kept, keeps.named.length_eq]
  · apply ascending_mergeSort
    rwa [keeps.groups]
  · rw [(sorted.map Prod.snd).sum_eq, total]
  · intro group n
    rw [sorted.mem_iff, mem_countRows]

/-- Two short traces are counted with their four steps, under one group. -/
theorem suite_counts_short : ∃ suite,
    buildSuite ⟨true, ["r"]⟩ ((List.range 2).map shortTrace) ⟨[], []⟩ = .ok suite ∧
      (manifestCounts suite).traces = 2 ∧ (manifestCounts suite).traceSteps = 4 ∧
        ("a", 2) ∈ (manifestCounts suite).tracesByGroup := by
  have plain : ∀ t ∈ (List.range 2).map shortTrace, PlainId t.header.id := by
    rw [List.forall_mem_map]
    exact fun i _ => shortHeader_plain i
  obtain ⟨suite, written⟩ := @buildSuite_ok ⟨true, ["r"]⟩ _ plain ⟨[], []⟩
  obtain ⟨-, traces, steps, -, -, groups⟩ := suite_counts ⟨true, ["r"]⟩ [(List.range 2).map shortTrace] _ suite
    (shortTraces_gathered 2) plain written
  exact ⟨suite, written, traces, steps, (groups "a" 2).mpr ⟨by decide, by decide⟩⟩

end Inventory

end Zmux
