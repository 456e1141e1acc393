import Zmux.Proofs.ParameterValues

/-! A transport-parameter block decodes exactly when it spells the layout of its parameters. -/

namespace Zmux

open Wire

/-- A block is its parameters, one after the other. -/
def tpsLayout : List Param → Layout
  | [] => .done
  | param :: params => param.layout ++ tpsLayout params

/-- A parameter as the decoder gives it: a named value, or the bytes of an unknown number. -/
def Param.Decoded : Param → Prop
  | ⟨.num id, .raw _⟩ => tpById id = none
  | ⟨.name name, .value value⟩ => ∃ row format, tpByName name = .ok row ∧
      row.scope ≠ .prohibited ∧ row.format = some format ∧ value.InFormat format
  | _ => False

/-- Every row of the registry is found by its name and by its number. -/
theorem tp_row {row : TpMeta} (member : row ∈ transportParameters) :
    tpByName row.name = .ok row ∧ tpById row.id = some row := by
  -- Names and numbers are unique among the rows, which the table shows by inspection.
  have all : ∀ row ∈ transportParameters,
      transportParameters.find? (fun other => other.name = row.name) = some row ∧
      transportParameters.find? (fun other => other.id = row.id) = some row := by decide
  obtain ⟨byName, byId⟩ := all row member
  exact ⟨by rw [tpByName, byName], byId⟩

/-- The row that is found by a name is the one of the registry with that name. -/
theorem tpByName_eq_ok {name : TpName} {row : TpMeta} :
    tpByName name = .ok row ↔ row ∈ transportParameters ∧ row.name = name := by
  -- A lookup finds a row of that name, and the row of that name is found.
  constructor
  · intro found
    unfold tpByName at found
    split at found
    · rename_i other same
      cases found
      exact ⟨List.mem_of_find?_eq_some same, by simpa using List.find?_some same⟩
    · cases found
  · intro listed
    obtain ⟨member, rfl⟩ := listed
    exact (tp_row member).1

/-- The row that is found by a number is the one of the registry with that number. -/
theorem tpById_eq_some {id : Nat} {row : TpMeta} :
    tpById id = some row ↔ row ∈ transportParameters ∧ row.id = id := by
  -- A lookup finds a row of that number, and the row of that number is found.
  constructor
  · intro found
    exact ⟨List.mem_of_find?_eq_some found, by simpa using List.find?_some found⟩
  · intro listed
    obtain ⟨member, rfl⟩ := listed
    exact (tp_row member).2

/-- A named parameter is sent under the number of its row. -/
theorem sent_name {name : TpName} {row : TpMeta} (found : tpByName name = .ok row) :
    (TpId.name name).sent = row.id := by
  -- The row found gives the number.
  rw [TpId.sent, TpId.number, found, map_ok]

/-- A parameter sent under the name of a row is sent under the row's number. -/
theorem sent_row {row : TpMeta} (member : row ∈ transportParameters) :
    (TpId.name row.name).sent = row.id :=
  sent_name (tp_row member).1

/-- A parameter the decoder gives keeps an unknown number, or is named after an allowed row. -/
theorem Param.Decoded.kinds {param : Param} (decoded : param.Decoded) :
    (∃ id literal, param = ⟨.num id, .raw literal⟩ ∧ tpById id = none) ∨
    ∃ row format value, param = ⟨.name row.name, .value value⟩ ∧ row ∈ transportParameters ∧
      row.scope ≠ .prohibited ∧ row.format = some format ∧ value.InFormat format := by
  -- A number goes with bytes and a name with a value; the other two pairings are not decoded.
  obtain ⟨id, content⟩ := param
  cases id with
  | num id =>
    cases content with
    | raw literal => exact .inl ⟨id, literal, rfl, decoded⟩
    | value => exact decoded.elim
  | name name =>
    cases content with
    | raw => exact decoded.elim
    | value value =>
      obtain ⟨row, format, registered, permitted, formatted, formed⟩ := decoded
      obtain ⟨member, rfl⟩ := tpByName_eq_ok.mp registered
      exact .inr ⟨row, format, value, rfl, member, permitted, formatted, formed⟩

/-- A parameter that may appear has a format of its own. -/
theorem format_of_allowed {row : TpMeta} (member : row ∈ transportParameters)
    (allowed : row.scope ≠ .prohibited) : ∃ format, row.format = some format ∧
      format ≠ .opaqueBytes := by
  -- The table has a format in every row that is not prohibited.
  have all : ∀ row ∈ transportParameters, row.scope ≠ .prohibited →
      (row.format.any fun format => format ≠ .opaqueBytes) = true := by decide
  have any := all row member allowed
  cases named : row.format with
  | none => simp [named] at any
  | some format => exact ⟨format, rfl, by simpa [named] using any⟩

/-- The value of a registered parameter is decoded by its format. -/
theorem decodeTpValue_row {num : Nat} {row : TpMeta} {format : TpFormat} {raw : Bytes}
    (found : tpById num = some row) (allowed : row.scope ≠ .prohibited)
    (formatted : row.format = some format) (known : format ≠ .opaqueBytes) {param : Param} :
    decodeTpValue num raw = .ok param ↔ ∃ value, param = ⟨.name row.name, .value value⟩ ∧
      value.InFormat format ∧ Starts varintFormat value.layout raw [] := by
  -- Whichever decoder the format selects, its answer is put under the name of the row.
  have decoder : ∃ decode : Except Failure TpValue,
      decodeTpValue num raw = decode.map (fun value => ⟨.name row.name, .value value⟩) ∧
      ∀ value, decode = .ok value ↔
        value.InFormat format ∧ Starts varintFormat value.layout raw [] := by
    simp only [decodeTpValue, found, if_neg allowed, formatted]
    cases format with
    | varint => exact ⟨_, rfl, fun _ => decodeTpVarint_eq_ok⟩
    | empty => exact ⟨_, rfl, fun _ => decodeTpEmpty_eq_ok⟩
    | role => exact ⟨_, rfl, fun _ => decodeTpRole_eq_ok⟩
    | multipath => exact ⟨_, rfl, fun _ => decodeTpMultipath_eq_ok⟩
    | lanes => exact ⟨_, rfl, fun _ => decodeTpLanes_eq_ok⟩
    | opaqueBytes => exact absurd rfl known
  obtain ⟨decode, selected, sound⟩ := decoder
  simp only [selected, map_eq_ok, sound]
  constructor
  · intro decoded
    obtain ⟨value, spelled, same⟩ := decoded
    exact ⟨value, same.symm, spelled⟩
  · intro decoded
    obtain ⟨value, same, spelled⟩ := decoded
    exact ⟨value, spelled, same.symm⟩

/-- A parameter is let through when no row prohibits it. -/
theorem refuseProhibited_eq_ok {num : Nat} {answer : Unit} :
    refuseProhibited num = .ok answer ↔ ∀ row, tpById num = some row → row.scope ≠ .prohibited := by
  -- Without a row there is nothing to refuse.
  unfold refuseProhibited
  cases tpById num <;> simp

/-- A value decodes to the parameter that its bytes spell. -/
theorem decodeTpValue_eq_ok {num : Nat} {raw : Bytes} {param : Param}
    (allowed : ∀ row, tpById num = some row → row.scope ≠ .prohibited) :
    decodeTpValue num raw = .ok param ↔ param.Decoded ∧ param.id.sent = num ∧
      Starts varintFormat param.content.layout raw [] := by
  -- Whether the registry has the number decides which of the two kinds the parameter is.
  cases found : tpById num with
  | none =>
    -- Without a row, the parameter keeps its number and its bytes.
    have kept : decodeTpValue num raw = .ok ⟨.num num, .raw raw⟩ := by
      simp only [decodeTpValue, found]
    rw [kept]
    constructor
    · intro same
      cases same
      exact ⟨found, rfl, by simp [TpContent.layout]⟩
    · intro spelled
      obtain ⟨decoded, sent, starts⟩ := spelled
      rcases decoded.kinds with ⟨id, literal, rfl, -⟩ | ⟨row, _, _, rfl, member, -⟩
      · have bytes : raw = literal := by simpa [TpContent.layout] using starts
        have number : id = num := sent
        rw [bytes, number]
      · -- A row's own number has a row, so this number cannot be the row's.
        have missing := (tp_row member).2
        rw [← sent_row member, sent, found] at missing
        cases missing
  | some row =>
    have permitted := allowed row found
    obtain ⟨member, numbered⟩ := tpById_eq_some.mp found
    obtain ⟨format, formatted, known⟩ := format_of_allowed member permitted
    rw [decodeTpValue_row found permitted formatted known]
    constructor
    · intro decoded
      obtain ⟨value, rfl, formed, starts⟩ := decoded
      have registered := (tp_row member).1
      exact ⟨⟨row, format, registered, permitted, formatted, formed⟩,
        (sent_row member).trans numbered, starts⟩
    · intro spelled
      obtain ⟨decoded, sent, starts⟩ := spelled
      rcases decoded.kinds with ⟨id, literal, rfl, unknown⟩ |
        ⟨other, chosen, value, rfl, listed, -, laid, formed⟩
      · have number : id = num := sent
        rw [number, found] at unknown
        cases unknown
      · -- Two rows with one number are the same row.
        have same := (tp_row listed).2
        rw [← sent_row listed, sent, found] at same
        cases same
        rw [formatted] at laid
        cases laid
        exact ⟨value, rfl, formed, starts⟩

/-- A parameter read is its number and its bytes behind their count. -/
theorem readTp_eq_ok {buf raw : Bytes} {pos num next : Nat} :
    readTp buf pos = .ok (num, raw, next) ↔ next ≤ buf.length ∧
      Starts varintFormat (.num num (.sized (.bytes raw .done) .done))
        (buf.drop pos) (buf.drop next) := by
  -- Two integers and as many bytes as the second says are what the layout asks for.
  simp only [readTp, bind_eq_ok, Prod.exists, decodeVarint_here, raiseIf_eq_ok, pure_ok,
    Except.ok.injEq, Prod.mk.injEq]
  constructor
  · intro read
    obtain ⟨_, start, width, ⟨legal, -, first⟩, ln, body, other, ⟨lawful, -, second⟩, -, fits,
      rfl, rfl, rfl⟩ := read
    have count : (slice buf body (body + ln)).length = ln := by
      rw [slice_length (by omega)]
      omega
    -- The value is cut off, and the position behind it is where the suffix goes on.
    have split : slice buf body (body + ln) ++ buf.drop (body + ln) = buf.drop body :=
      slice_append_drop (Nat.le_add_right _ _)
    refine ⟨by omega, starts_num_iff.mpr ⟨width, _, legal, first, starts_sized_iff.mpr
      ⟨slice buf body (body + ln), other, _, by simp, ?_, ?_, starts_done_iff.mpr rfl⟩⟩⟩
    · rw [count]
      exact lawful
    · rw [count, split]
      exact second
  · intro spelled
    obtain ⟨within, starts⟩ := spelled
    obtain ⟨width, behind, legal, first, starts⟩ := starts_num_iff.mp starts
    obtain ⟨inner, other, last, same, lawful, rfl, ended⟩ := starts_sized_iff.mp starts
    simp only [starts_bytes_iff, starts_done_iff, ↓existsAndEq, List.append_nil, and_true] at same
    rw [starts_done_iff.mp ended] at first
    subst same
    have wide := varintFormat.form_length legal
    have narrow := varintFormat.form_length lawful
    -- Dropping the two forms and the bytes leads to the position behind the parameter.
    have start : buf.drop (pos + width) =
        varintFormat.form inner.length other ++ (inner ++ buf.drop next) := by
      rw [← List.drop_drop, first, List.drop_left' wide]
    have body : buf.drop (pos + width + other) = inner ++ buf.drop next := by
      rw [← List.drop_drop, start, List.drop_left' narrow]
    have total := congrArg List.length first
    have positive := varint_positive legal
    simp only [List.length_drop, List.length_append, wide, narrow] at total
    have here : pos + width + other + inner.length = next := by omega
    refine ⟨num, _, width, ⟨legal, rfl, by rw [start]; exact first⟩, inner.length, _, other,
      ⟨lawful, rfl, by rw [body]; exact start⟩, (), by omega, rfl, ?_, here⟩
    exact slice_front body

/-- A parameter decoded is allowed. -/
theorem Param.Decoded.allowed {param : Param} (decoded : param.Decoded) {row : TpMeta}
    (found : tpById param.id.sent = some row) : row.scope ≠ .prohibited := by
  -- An unknown number has no row, and a named parameter is sent under its own row's number.
  rcases decoded.kinds with ⟨id, literal, rfl, unknown⟩ | ⟨other, _, value, rfl, member, permitted, -⟩
  · have number : (TpId.num id).sent = id := rfl
    rw [number, unknown] at found
    cases found
  · rw [sent_row member, (tp_row member).2] at found
    cases found
    exact permitted

/-- The value of a parameter can be told apart from the bytes that spell it. -/
theorem param_layout_iff {param : Param} {window left : Bytes} :
    Starts varintFormat param.layout window left ↔ ∃ raw,
      Starts varintFormat (.num param.id.sent (.sized (.bytes raw .done) .done)) window left ∧
      Starts varintFormat param.content.layout raw [] := by
  -- The byte count is that of the value's bytes, however the value is laid out in them.
  constructor
  · intro starts
    obtain ⟨width, behind, legal, same, starts⟩ := starts_num_iff.mp starts
    obtain ⟨inner, other, last, part, lawful, parted, rest⟩ := starts_sized_iff.mp starts
    -- Read as bytes, the value is spelled by itself.
    have literal : Starts varintFormat (.bytes inner .done) inner [] := by simp
    exact ⟨inner, starts_num_iff.mpr ⟨width, behind, legal, same,
      starts_sized_iff.mpr ⟨inner, other, last, literal, lawful, parted, rest⟩⟩, part⟩
  · intro starts
    obtain ⟨raw, starts, part⟩ := starts
    obtain ⟨width, behind, legal, same, starts⟩ := starts_num_iff.mp starts
    obtain ⟨inner, other, last, literal, lawful, parted, rest⟩ := starts_sized_iff.mp starts
    have whole : inner = raw := by simpa using literal
    subst whole
    exact starts_num_iff.mpr ⟨width, behind, legal, same,
      starts_sized_iff.mpr ⟨inner, other, last, part, lawful, parted, rest⟩⟩

/-- Where a buffer goes on with the layout of a parameter, that parameter is read. -/
theorem readTp_of_layout {buf middle : Bytes} {pos : Nat} {param : Param}
    (below : pos < buf.length)
    (starts : Starts varintFormat param.layout (buf.drop pos) middle) : ∃ raw next,
      readTp buf pos = .ok (param.id.sent, raw, next) ∧ buf.drop next = middle ∧
      Starts varintFormat param.content.layout raw [] := by
  obtain ⟨raw, read, part⟩ := param_layout_iff.mp starts
  -- What is left behind the parameter is the suffix at the position behind it.
  obtain ⟨widths, spelled⟩ := read
  obtain ⟨front, same, -⟩ := reads_prefix_iff.mp spelled
  have behind : buf.drop (pos + front.length) = middle := by
    rw [← List.drop_drop, same, List.drop_left]
  have total := congrArg List.length same
  rw [List.length_drop, List.length_append] at total
  refine ⟨raw, pos + front.length, ?_, behind, part⟩
  rw [readTp_eq_ok, behind]
  exact ⟨by omega, widths, spelled⟩

/-- The loop over a block, one parameter further. -/
theorem decodeTpsFrom_step {buf : Bytes} {pos : Nat} {out : List Param} {seen : List Nat}
    (below : pos < buf.length) : decodeTpsFrom buf pos out seen = (do
      let (num, raw, next) ← readTp buf pos
      raiseIf (num ∈ seen) (.decodeError TPE s!"duplicate transport parameter 0x{hex num}")
      refuseProhibited num
      let param ← decodeTpValue num raw
      decodeTpsFrom buf next (out ++ [param]) (num :: seen)) := by
  -- The read of the loop is matched once, and then each of its outcomes is taken further.
  conv => lhs; rw [decodeTpsFrom, if_pos below]
  split <;> rename_i found <;> simp only [found] <;> rfl

/-- Parameters as the loop takes them up: each decoded, not met before, and not met twice. -/
def Fresh (seen : List Nat) (params : List Param) : Prop :=
  -- The numbers met before are kept in a list, as the loop keeps them.
  (∀ param ∈ params, param.Decoded) ∧ (params.map fun param => param.id.sent).Nodup ∧
    ∀ param ∈ params, param.id.sent ∉ seen

/-- No parameter of none was seen before. -/
theorem fresh_nil (seen : List Nat) : Fresh seen [] := by
  -- There is no parameter to speak of.
  simp [Fresh]

/-- One parameter is taken up, and its number is among those met before for the others. -/
theorem fresh_cons {seen : List Nat} {param : Param} {params : List Param} :
    Fresh seen (param :: params) ↔
      param.Decoded ∧ param.id.sent ∉ seen ∧ Fresh (param.id.sent :: seen) params := by
  -- Not meeting a number twice is asked of the tail once its head is among the numbers met.
  constructor
  · intro fresh
    obtain ⟨each, distinct, new⟩ := fresh
    rw [List.map_cons, List.nodup_cons] at distinct
    refine ⟨each param List.mem_cons_self, new param List.mem_cons_self, ?_, distinct.2, ?_⟩
    · intro other member
      exact each other (List.mem_cons_of_mem _ member)
    · intro other member met
      rcases List.mem_cons.mp met with same | met
      · exact distinct.1 (List.mem_map.mpr ⟨other, member, same⟩)
      · exact new other (List.mem_cons_of_mem _ member) met
  · intro fresh
    obtain ⟨holds, unmet, each, distinct, new⟩ := fresh
    refine ⟨?_, ?_, ?_⟩
    · intro other member
      rcases List.mem_cons.mp member with rfl | member
      · exact holds
      · exact each other member
    · rw [List.map_cons, List.nodup_cons]
      refine ⟨?_, distinct⟩
      intro member
      obtain ⟨other, member, same⟩ := List.mem_map.mp member
      exact new other member (by simp [same])
    · intro other member
      rcases List.mem_cons.mp member with rfl | member
      · exact unmet
      · intro met
        exact new other member (List.mem_cons_of_mem _ met)

/-- The parameters of a block spell it, each decoded and none of them sent twice. -/
theorem decodeTpsFrom_eq_ok {buf : Bytes} {pos : Nat} {out result : List Param}
    {seen : List Nat} : decodeTpsFrom buf pos out seen = .ok result ↔ ∃ params,
      result = out ++ params ∧ Fresh seen params ∧
      Starts varintFormat (tpsLayout params) (buf.drop pos) [] := by
  -- The induction is on the bytes that are left, and each parameter takes some of them.
  induction width : buf.length - pos using Nat.strongRecOn generalizing pos out seen with
  | _ width ih =>
    subst width
    by_cases below : pos < buf.length
    · rw [decodeTpsFrom_step below]
      simp only [bind_eq_ok, Prod.exists, raiseIf_eq_ok, refuseProhibited_eq_ok]
      constructor
      · intro decoded
        obtain ⟨num, raw, next, read, -, unmet, -, allowed, param, valued, decoded⟩ := decoded
        have forward := readTp_forward read
        obtain ⟨params, rfl, fresh, starts⟩ :=
          (ih (buf.length - next) (by omega) rfl).mp decoded
        obtain ⟨holds, rfl, part⟩ := (decodeTpValue_eq_ok allowed).mp valued
        -- The parameter read is put in front of those that the rest of the loop gives.
        refine ⟨param :: params, by simp, fresh_cons.mpr ⟨holds, unmet, fresh⟩, ?_⟩
        exact starts_append_iff.mpr
          ⟨_, param_layout_iff.mpr ⟨raw, (readTp_eq_ok.mp read).2, part⟩, starts⟩
      · intro spelled
        obtain ⟨params, rfl, fresh, starts⟩ := spelled
        cases params with
        | nil =>
          -- Bytes are left, and the empty layout would take none of them.
          have ended := starts_done_iff.mp starts
          rw [List.drop_eq_nil_iff] at ended
          omega
        | cons param params =>
          obtain ⟨middle, first, last⟩ := starts_append_iff.mp starts
          obtain ⟨holds, unmet, others⟩ := fresh_cons.mp fresh
          obtain ⟨raw, next, found, behind, part⟩ := readTp_of_layout below first
          have forward := readTp_forward found
          have permitted := fun row listed => @Param.Decoded.allowed _ holds row listed
          have valued := (decodeTpValue_eq_ok permitted).mpr ⟨holds, rfl, part⟩
          refine ⟨_, raw, next, found, (), unmet, (), permitted, param, valued, ?_⟩
          rw [← behind] at last
          exact (ih _ (by omega) rfl).mpr ⟨params, by simp, others, last⟩
    · have ended : buf.drop pos = [] := List.drop_eq_nil_of_le (by omega)
      rw [decodeTpsFrom, if_neg below, ended]
      constructor
      · intro same
        cases same
        exact ⟨[], by simp, fresh_nil seen, by simp [tpsLayout]⟩
      · intro spelled
        obtain ⟨params, rfl, -, starts⟩ := spelled
        cases params with
        | nil => simp
        | cons param params =>
          -- A parameter takes at least the first byte of its number.
          obtain ⟨width, _, _, same, -⟩ := starts_num_iff.mp starts
          simp [varintFormat, varintForm] at same

/-- The parameters of a block as the decoder gives them. -/
structure DecodedTps (params : List Param) : Prop where
  /-- Each of them is named, or of an unknown number. -/
  each : ∀ param ∈ params, param.Decoded
  /-- None of them is sent twice. -/
  distinct : (params.map fun param => param.id.sent).Nodup
  /-- Together they pass the checks of values and dependencies. -/
  checked : ∃ dict, validateTps params = .ok dict

/-- A block decodes to parameters that pass the checks and spell it, and to no others. -/
theorem decodeTps_eq_ok {buf : Bytes} {params : List Param} :
    decodeTps buf = .ok params ↔
      DecodedTps params ∧ Starts varintFormat (tpsLayout params) buf [] := by
  -- The loop starts with no numbers met, and the checks are made on its result.
  simp only [decodeTps, bind_eq_ok, decodeTpsFrom_eq_ok, List.nil_append, List.drop_zero, pure_ok,
    Except.ok.injEq]
  constructor
  · intro decoded
    obtain ⟨_, ⟨_, rfl, ⟨each, distinct, -⟩, starts⟩, dict, checked, rfl⟩ := decoded
    exact ⟨⟨each, distinct, dict, checked⟩, starts⟩
  · intro spelled
    obtain ⟨⟨each, distinct, dict, checked⟩, starts⟩ := spelled
    -- Before the first parameter no number has been met.
    have fresh : Fresh [] params := ⟨each, distinct, by simp⟩
    exact ⟨params, ⟨params, rfl, fresh, starts⟩, dict, checked, rfl⟩

/-- A decoded parameter is encoded by the shortest spelling of its layout. -/
theorem encodeTp_eq_ok {param : Param} (decoded : param.Decoded)
    (fits : param.layout.Fits varintFormat) :
    encodeTp param = .ok (param.layout.short varintFormat) := by
  obtain ⟨numbered, inner, counted, -⟩ := fits
  have head := v_legal numbered
  have count := v_legal counted
  -- Its number is found, and its value is encoded by the shortest spelling.
  have found : param.id.number = .ok param.id.sent ∧
      encodeTpContent param = .ok (param.content.layout.short varintFormat) := by
    rcases decoded.kinds with ⟨id, literal, rfl, -⟩ |
      ⟨row, format, value, rfl, member, -, formatted, formed⟩
    · exact ⟨rfl, by simp [encodeTpContent, TpContent.layout, Layout.short]⟩
    · have registered := (tp_row member).1
      have selected : (TpId.name row.name).row = .ok (some row) := by
        rw [TpId.row, registered, map_ok]
      refine ⟨?_, encodeTpValue_eq_ok selected formatted formed inner⟩
      rw [sent_row member, TpId.number, registered, map_ok]
  obtain ⟨number, body⟩ := found
  simp only [encodeTp, number, body, head, count, ok_bind, pure_ok, Param.layout, Layout.short,
    List.append_nil, List.append_assoc]
  rfl

/-- Decoded parameters are encoded by the shortest spelling of their block. -/
theorem encodeTps_eq_ok {params : List Param} (each : ∀ param ∈ params, param.Decoded)
    (fits : (tpsLayout params).Fits varintFormat) :
    encodeTps params = .ok ((tpsLayout params).short varintFormat) := by
  -- The induction is on the parameters, whose spellings follow one another.
  induction params with
  | nil => rfl
  | cons param params ih =>
    obtain ⟨head, tail⟩ := Layout.fits_append.mp fits
    have first := encodeTp_eq_ok (each param List.mem_cons_self) head
    have rest := ih (fun other member => each other (List.mem_cons_of_mem _ member)) tail
    simp only [encodeTps, first, rest, ok_bind, pure_ok, tpsLayout, Layout.short_append]

end Zmux
