import Zmux.Proofs.TraceCheck
import Zmux.Proofs.TraceCounts

/-! Runs of the builder: the file it leaves is found right exactly when every call was legal. -/

namespace Zmux

open Wire

section Update

variable {key : String} {value : Value} {fields others : Fields}

/-- A field whose key is new is set behind all others. -/
theorem setField_new (new : hasField fields key = false) :
    setField fields key value = fields ++ [(key, value)] := by
  -- The induction is on the fields, none of which has the key.
  induction fields with
  | nil => rfl
  | cons field fields ih =>
    rw [hasField_cons, Bool.or_eq_false_iff, decide_eq_false_iff_not] at new
    rw [setField, if_neg new.1, ih new.2, List.cons_append]

/-- New fields are set behind the old ones. -/
theorem update_eq_append (distinct : DistinctKeys others)
    (new : EveryField (fun key _ => hasField fields key = false) others) :
    update fields others = fields ++ others := by
  -- The induction is on the new fields, each of which is set behind those before it.
  induction others generalizing fields with
  | nil => rw [update, List.foldl_nil, List.append_nil]
  | cons field others ih =>
    rw [distinctKeys_cons] at distinct
    rw [everyField_cons] at new
    rw [update, List.foldl_cons, setField_new new.1]
    refine (ih distinct.2 ?_).trans (List.append_assoc ..)
    -- A later field is none of the old ones, and not the one that was just set.
    intro other member
    rw [hasField_append, new.2 other member, hasField_cons, hasField_nil, Bool.or_false,
      Bool.false_or, decide_eq_false_iff_not]
    exact distinct.1 other member

/-- The line of a step is its number and its fields, where no key comes twice. -/
theorem TraceStep.line_eq {step : TraceStep} {i : Nat} (distinct : DistinctKeys step.fields)
    (unnumbered : EveryField (fun key _ => key ≠ "step") step.fields) :
    step.line i = stepLine i step.fields := by
  rw [line, update_eq_append distinct, List.cons_append, List.nil_append, stepLine]
  -- No field of the step has the key of the number.
  intro field member
  rw [hasField_cons, hasField_nil, Bool.or_false, decide_eq_false_iff_not]
  exact (unnumbered field member).symm

end Update

section Delivering

variable {binds : List String} {i : Nat} {step : Step}

/-- A list is written item by item. -/
theorem toJson_list (items : List Value) :
    (Value.list items).toJson = .list (items.map Value.toJson) := by
  rw [Value.toJson, itemsToJson_eq]

/-- The fields of a step that delivers bytes, but for its operation and its target. -/
def Step.parts (step : Step) : Fields :=
  optional "records" id step.records
    ++ optional "invalid" .bool (if step.invalid = true then some true else none)
    ++ optional "hex" .bytes step.hex ++ optional "messages" id step.messages
    ++ optional "messages_hex" (fun texts => .list (texts.map .str)) step.messagesHex
    ++ optional "chunks" (fun sizes => .list (sizes.map .nat))
      (if step.chunks = [] then none else some step.chunks)

/-- The fields of a step that delivers bytes are its operation, its target and its parts. -/
theorem Step.fields_eq (step : Step) :
    step.fields = ("op", .str "peer_send") :: step.target.field :: step.parts := by
  obtain ⟨key, records, invalid, hex, messages, texts, chunks⟩ := step
  -- Whether the step is invalid, and whether it is cut, decides which parts are there.
  cases invalid <;> by_cases whole : chunks = [] <;> simp [Step.fields, parts, optional, whole]

/-- No field of a step that delivers bytes comes twice. -/
theorem Step.distinct : DistinctKeys step.fields := by
  rw [fields_eq]
  cases step.target <;> simp [parts, Target.field]

/-- A step that delivers bytes does not number itself. -/
theorem Step.unnumbered : EveryField (fun key _ => key ≠ "step") step.fields := by
  rw [fields_eq]
  cases step.target <;> simp [parts, Target.field]

/-- The line of a step that delivers bytes. -/
abbrev Step.sentLine (step : Step) (i : Nat) : Fields :=
  opLine i "peer_send" (step.target.field :: step.parts)

/-- A target is a pipe or a carrier. -/
theorem Target.field_key (key : Target) : key.field.1 = "pipe" ∨ key.field.1 = "carrier" := by
  cases key <;> simp [field]

/-- A part of a step is found in its line. -/
theorem Step.lookup_sentLine {key : String} (other : key ∉ ["step", "op", "pipe", "carrier"]) :
    (step.sentLine i).lookup key = (step.parts.lookup key).map Value.toJson := by
  simp only [List.mem_cons, List.not_mem_nil, or_false, not_or] at other
  obtain ⟨numbered, called, piped, carried⟩ := other
  rw [lookup_opLine numbered called, lookup_field, if_neg]
  -- The target has one of its own two keys, and none of the parts.
  intro same
  rcases step.target.field_key with name | name
  · exact piped (same.trans name)
  · exact carried (same.trans name)

/-- The line of a step has the parts that the step has. -/
theorem Step.hasField_sentLine {key : String} (other : key ∉ ["step", "op", "pipe", "carrier"]) :
    hasField (step.sentLine i) key = hasField step.parts key := by
  simp only [List.mem_cons, List.not_mem_nil, or_false, not_or] at other
  obtain ⟨numbered, called, piped, carried⟩ := other
  rw [hasField_opLine numbered called, hasField_cons, decide_eq_false_iff_not.mpr, Bool.false_or]
  -- The target has one of its own two keys, and none of the parts.
  intro same
  rcases step.target.field_key with name | name
  · exact piped (same.symm.trans name)
  · exact carried (same.symm.trans name)

/-- What a line has under the keys of a delivery. -/
structure Delivery (line : Fields) (step : Step) : Prop where
  records : line.lookup "records" = step.records.map Value.toJson
  hex : line.lookup "hex" = step.hex.map fun bytes => .str (hexText bytes)
  given : hasField line "hex" = step.hex.isSome
  messages : line.lookup "messages" = step.messages.map Value.toJson
  texts : line.lookup "messages_hex" = step.messagesHex.map fun texts => .list (texts.map .str)
  invalid : ((line.lookup "invalid").getD .none).truthy = step.invalid
  chunks : line.lookup "chunks" =
    if step.chunks = [] then none else some (.list (step.chunks.map .nat))

/-- The line of a step has what the step delivers. -/
theorem Step.delivery (step : Step) : Delivery (step.sentLine i) step where
  records := by
    rw [lookup_sentLine (by decide)]
    simp [parts]
  hex := by
    have bytes : Value.toJson ∘ Value.bytes = fun bytes => .str (hexText bytes) := rfl
    rw [lookup_sentLine (by decide)]
    simp [parts, bytes]
  given := by
    rw [hasField_sentLine (by decide)]
    simp [parts]
  messages := by
    rw [lookup_sentLine (by decide)]
    simp [parts]
  texts := by
    have texts : (Value.toJson ∘ fun texts : List String => Value.list (texts.map .str)) =
        fun texts => .list (texts.map .str) := by
      funext texts
      simp [toJson_list]
    rw [lookup_sentLine (by decide)]
    simp [parts, texts]
  invalid := by
    rw [lookup_sentLine (by decide)]
    cases said : step.invalid <;> simp [parts, said] <;> rfl
  chunks := by
    rw [lookup_sentLine (by decide)]
    by_cases whole : step.chunks = [] <;> simp [parts, whole, toJson_list]

/-- Nothing but its bytes can be wrong with a step that delivers bytes. -/
theorem Step.right_sent (step : Step) : checkStep binds i (step.sentLine i) = .ok [] ↔
    checkPeerSend (step.sentLine i) = .ok [] := by
  have row : ("peer_send", [], ["pipe", "carrier", "records", "hex", "chunks", "invalid",
    "messages", "messages_hex"]) ∈ ops := by simp [ops]
  rw [checkStep_eq_nil row]
  · -- Its fields are known, and it has either a pipe or a carrier.
    have fields : CommonChecks "peer_send" [] ["pipe", "carrier", "records", "hex", "chunks",
        "invalid", "messages", "messages_hex"] (step.target.field :: step.parts) := by
      cases step.target <;> simp [CommonChecks, Step.parts, Target.field]
    simp [fields, checkOperation]
  · cases step.target <;> simp [Step.parts, Target.field]

variable {line : Fields}

/-- The sizes of chunks are read as the numbers they were written as. -/
theorem mapM_number (sizes : List Nat) :
    (sizes.map Value.nat).mapM Value.number = .ok (sizes.map Int.ofNat) := by
  -- The induction is on the sizes.
  induction sizes with
  | nil => rfl
  | cons size sizes ih =>
    rw [List.map_cons, List.mapM_cons, ih]
    rfl

/-- The sum of the sizes is the same as integers. -/
theorem sum_ofNat (sizes : List Nat) : (sizes.map Int.ofNat).sum = (sizes.sum : Int) := by
  -- The induction is on the sizes.
  induction sizes with
  | nil => rfl
  | cons size sizes ih => simp [ih]

/-- The chunks of a step with bytes are right when they add up to these bytes. -/
theorem checkChunks_eq_nil {b : Bytes} (held : Delivery line step) (own : step.hex = some b) :
    checkChunks line = .ok [] ↔ (step.chunks ≠ [] → step.chunks.sum = b.length) := by
  rw [checkChunks, held.chunks, held.hex, own]
  -- A step that is not cut has no chunks to add up.
  by_cases whole : step.chunks = []
  · simp [whole]
  · simp only [whole, if_false, Option.map_some, Value.fromHex, fromHex_hexText, ok_bind,
      Value.listed, mapM_number, pure_ok, Except.ok.injEq, reportIf_eq_nil, not_not, sum_ofNat,
      Nat.cast_inj, ne_eq, not_false_eq_true, true_imp_iff]

/-- Nothing is compared where the bytes are left to be filled in. -/
theorem checkChunks_pending (held : Delivery line step) (pending : step.hex = none) :
    checkChunks line = .ok [] := by
  rw [checkChunks, held.hex, pending, Option.map_none]
  split
  · -- There are no bytes to compare with.
    rename_i none
    cases none
  · rfl

/-- Messages that are read back are encoded to the texts beside them. -/
theorem encodeTexts {msgs : List Value} {enc : List Bytes}
    (recoverable : ∀ msg ∈ msgs, msg.Recoverable) (encoded : msgs.mapM encodeFramesDict = .ok enc) :
    ((msgs.map Value.toJson).mapM fun m => do
      let frames ← m.fromJson
      let bytes ← encodeFramesDict frames
      return Value.str (hexText bytes)) = .ok ((enc.map hexText).map .str) := by
  -- The induction is on the messages, each of which is read back and encoded by itself.
  induction msgs generalizing enc with
  | nil =>
    cases encoded
    rfl
  | cons msg msgs ih =>
    rw [List.forall_mem_cons] at recoverable
    simp only [List.mapM_cons, bind_eq_ok, pure_ok, Except.ok.injEq] at encoded
    obtain ⟨bytes, first, rest, others, rfl⟩ := encoded
    rw [List.map_cons, List.mapM_cons, ih recoverable.2 others,
      Value.fromJson_toJson msg recoverable.1, ok_bind, first]
    rfl

/-- The texts beside messages are right when they are those of the encoded messages. -/
theorem checkMessagesHex_eq_nil {msgs : List Value} {enc : List Bytes}
    (held : Delivery line step) (given : step.messages = some (.list msgs))
    (recoverable : ∀ msg ∈ msgs, msg.Recoverable) (encoded : msgs.mapM encodeFramesDict = .ok enc) :
    checkMessagesHex line (.list ((enc.map hexText).map .str)) = .ok [] := by
  have texts : (Value.list ((enc.map hexText).map .str)).Keyed := by simp
  -- A value without dicts is the same as itself for the check.
  have same := Value.same_toJson _ texts
  rw [toJson_list, List.map_map] at same
  rw [checkMessagesHex, held.messages, given, Option.map_some, toJson_list]
  simp only [Value.listed, ok_bind]
  rw [encodeTexts recoverable encoded, ok_bind, pure_ok, Except.ok.injEq, reportIf_eq_nil, not_not]
  exact same

/-- Records are right beside their bytes, and where their bytes are left to be filled in. -/
theorem checkRecords_eq_nil {recs : List Value} (held : Delivery line step)
    (given : step.records = some (.list recs)) (recoverable : (Value.list recs).Recoverable)
    (own : if (Value.list recs).hasPlaceholder = true then step.hex = none
      else ∃ b, recordBytesDict (.list recs) = .ok b ∧ step.hex = some b) :
    checkRecords line = .ok [] := by
  -- The records are read back, with a placeholder exactly where there was one.
  have read := Value.fromJson_toJson _ recoverable
  have kept := (Value.list recs).hasPlaceholder_toJson
  rw [toJson_list] at read kept
  rw [checkRecords, held.records, given, Option.map_some, toJson_list]
  simp only [read, ok_bind, kept]
  split at own
  · -- The bytes are left out, as they must be with a placeholder.
    rename_i pending
    rw [if_pos pending, held.given, own]
    rfl
  · -- The bytes are those that the records are encoded to.
    rename_i plain
    obtain ⟨b, encoded, own⟩ := own
    rw [if_neg plain, encoded, held.hex, own]
    simp

/-- Records with their bytes are right when they decode, unless nobody says that they do. -/
theorem checkDecodes_eq_nil {recs : List Value} (held : Delivery line step)
    (given : step.records = some (.list recs)) (recoverable : (Value.list recs).Recoverable) :
    checkDecodes line = .ok [] ↔ ((Value.list recs).hasPlaceholder = false → step.invalid = false →
      (Value.list recs).toJson.hasRaw = false → ∀ b, recordBytesDict (.list recs) = .ok b →
        ∃ decoded, decodeStream b Limits.zmuxMaxRecordSize = .ok decoded) := by
  -- The records are read back, with a placeholder exactly where there was one.
  have read := Value.fromJson_toJson _ recoverable
  have kept := (Value.list recs).hasPlaceholder_toJson
  rw [toJson_list] at read kept
  rw [checkDecodes, held.records, given, Option.map_some, toJson_list]
  simp only [read, ok_bind, kept, held.invalid]
  split
  · -- Nobody says that the records decode.
    rename_i waived
    simp only [pure_ok, true_iff]
    intro plain valid bare
    simp [plain, valid, bare] at waived
  · -- The records are said to decode, so their bytes are decoded.
    rename_i held
    simp only [not_or, Bool.not_eq_true] at held
    simp only [held, true_imp_iff]
    cases recordBytesDict (.list recs) with
    | error fault => simp
    | ok b =>
      simp only [Except.ok.injEq, forall_eq']
      cases decodeStream b Limits.zmuxMaxRecordSize with
      | error fault => cases fault <;> simp
      | ok decoded => simp

/-- A step has the bytes of its records unless they are left to be filled in. -/
def Step.OwnBytes (step : Step) : Prop :=
  match step.records with
  | some (.list recs) => (Value.list recs).Recoverable ∧
    if (Value.list recs).hasPlaceholder = true then step.hex = none
    else ∃ b, recordBytesDict (.list recs) = .ok b ∧ step.hex = some b
  | some _ => False
  | none => step.hex.isSome = true

/-- The records of a step with its own bytes are encoded, or left to be filled in. -/
theorem recordsStand_own (held : Delivery line step) (own : step.OwnBytes) :
    recordsStand line = true := by
  rw [Step.OwnBytes] at own
  rw [recordsStand, held.records]
  split at own
  · rename_i recs given
    -- The records are read back, with a placeholder exactly where there was one.
    have read := Value.fromJson_toJson _ own.1
    have kept := (Value.list recs).hasPlaceholder_toJson
    rw [toJson_list] at read kept
    rw [given, Option.map_some, toJson_list]
    simp only [kept, recordsEncoded, read, ok_bind, Bool.or_eq_true]
    -- Records are encoded unless a placeholder is among them.
    split at own
    · rename_i pending
      exact .inl pending
    · obtain ⟨-, b, encoded, -⟩ := own
      rw [encoded]
      exact .inr rfl
  · exact own.elim
  · rename_i none
    rw [none, Option.map_none]

/-- Without messages, the records and the bytes are checked in turn. -/
theorem Step.right_own (step : Step) (bare : step.messagesHex = none) (own : step.OwnBytes) :
    checkStep binds i (step.sentLine i) = .ok [] ↔
      checkDecodes (step.sentLine i) = .ok [] ∧ checkChunks (step.sentLine i) = .ok [] := by
  have both := @Reports.clean_both Failure String
  simp only [Reports.Clean] at both
  have held := step.delivery (i := i)
  have stand := recordsStand_own held own
  rw [OwnBytes] at own
  -- The records agree with their bytes, since these are their own.
  have right : checkRecords (step.sentLine i) = .ok [] := by
    split at own
    · rename_i given
      exact checkRecords_eq_nil held given own.1 own.2
    · exact own.elim
    · rename_i none
      rw [checkRecords, held.records, none, Option.map_none]
  rw [right_sent, checkPeerSend, held.texts, bare, held.records, held.given, Option.map_none]
  simp only [both, right, ok_bind, stand, Bool.true_eq_false, if_false, true_and]
  -- There are records, or bytes.
  refine and_iff_right ?_
  rw [Except.ok.injEq, reportIf_eq_nil]
  split at own
  · rename_i given
    simp [given, toJson_list]
  · exact own.elim
  · rename_i none
    simp [none, own]

end Delivering

/-- What the peer delivers agrees with what is said of it: its records decode, and its chunks add up. -/
def Call.Consistent : Call → Prop
  | send _ records chunks invalid _ =>
    let recs := Value.list (records.map .list)
    recs.hasPlaceholder = false → ∀ b, recordBytesDict recs = .ok b →
      (invalid = false → recs.toJson.hasRaw = false →
        ∃ decoded, decodeStream b Limits.zmuxMaxRecordSize = .ok decoded) ∧
      (chunks ≠ [] → chunks.sum = b.length)
  | sendMessages _ _ _ _ => True
  | raw _ b chunks _ => chunks ≠ [] → chunks.sum = b.length

/-- The values that a call is given are read back from their JSON form. -/
def Call.Documented : Call → Prop
  | send _ records _ _ _ => (Value.list (records.map .list)).Recoverable
  | sendMessages _ messages none _ => ∀ msg ∈ messages, (Value.list msg).Recoverable
  | sendMessages _ _ (some _) _ => True
  | raw _ _ _ _ => True

section Delivering

variable {t next : Trace}

/-- Nothing has to decode where there are no records. -/
theorem checkDecodes_raw {line : Fields} {step : Step} (held : Delivery line step)
    (bare : step.records = none) : checkDecodes line = .ok [] := by
  rw [checkDecodes, held.records, bare, Option.map_none]

/-- The step that a call delivers is right when the call was consistent. -/
theorem Call.right {call : Call} (documented : call.Documented)
    (applied : call.apply t = .ok next) :
    ∃ step : Step, next.steps = t.steps ++ [step] ∧ ∀ binds i,
      checkStep binds i (step.sentLine i) = .ok [] ↔ call.Consistent := by
  cases call with
  | send pipe records chunks invalid carrier =>
    cases held : (Value.list (records.map .list)).hasPlaceholder with
    | true =>
      -- The bytes are left to the runner, and so is every comparison with them.
      simp only [apply, Trace.send, held, if_true, Trace.add, bind_eq_ok, pure_ok,
        Except.ok.injEq] at applied
      obtain ⟨key, -, length, -, rfl⟩ := applied
      let step : Step :=
        ⟨target pipe carrier, some (.list (records.map .list)), invalid, none, none, none, chunks⟩
      have own : step.OwnBytes := ⟨documented, by rw [if_pos held]⟩
      refine ⟨step, rfl, ?_⟩
      intro binds i
      rw [step.right_own rfl own, checkDecodes_eq_nil step.delivery rfl documented,
        and_iff_left (checkChunks_pending step.delivery rfl)]
      simp [Consistent, held]
    | false =>
      -- With all values given, the bytes are those of the records.
      simp only [apply, Trace.send, held, Bool.false_eq_true, if_false, bind_eq_ok] at applied
      obtain ⟨b, encoded, added⟩ := applied
      rw [Trace.add_hex _ rfl, Except.ok.injEq] at added
      subst added
      let step : Step := ⟨target pipe carrier, some (.list (records.map .list)), invalid, some b,
        none, none, chunks⟩
      have own : step.OwnBytes := by
        refine ⟨documented, ?_⟩
        rw [held]
        exact ⟨b, encoded, rfl⟩
      refine ⟨step, rfl, ?_⟩
      intro binds i
      rw [step.right_own rfl own, checkDecodes_eq_nil step.delivery rfl documented,
        checkChunks_eq_nil step.delivery rfl]
      simp [Consistent, held, encoded, step]
  | sendMessages pipe messages given carrier =>
    cases given with
    | some given =>
      -- The texts are given beside the messages, and are not compared with them.
      simp only [apply, Trace.sendMessages, bind_eq_ok] at applied
      obtain ⟨count, -, added⟩ := applied
      rw [Trace.add_bare _ rfl, Except.ok.injEq] at added
      subst added
      refine ⟨_, rfl, ?_⟩
      intro binds i
      rw [Step.right_sent, checkPeerSend, (Step.delivery _).texts, Option.map_some]
      simp only [checkMessagesHex, (Step.delivery _).messages, Option.map_none, Consistent]
    | none =>
      -- The messages are encoded, and their texts are those of the bytes.
      simp only [apply, Trace.sendMessages, bind_eq_ok] at applied
      obtain ⟨enc, encoded, count, -, added⟩ := applied
      rw [Trace.add_bare _ rfl, Except.ok.injEq] at added
      subst added
      refine ⟨_, rfl, ?_⟩
      intro binds i
      rw [Step.right_sent, checkPeerSend, (Step.delivery _).texts, Option.map_some]
      simp only [Consistent, iff_true]
      apply checkMessagesHex_eq_nil (Step.delivery _) rfl _ encoded
      rw [List.forall_mem_map]
      exact documented
  | raw pipe b chunks carrier =>
    -- Bytes that are sent as they are have no records.
    simp only [apply, Trace.raw] at applied
    rw [Trace.add_hex _ rfl, Except.ok.injEq] at applied
    subst applied
    let step : Step := ⟨target pipe carrier, none, false, some b, none, none, chunks⟩
    refine ⟨step, rfl, ?_⟩
    intro binds i
    rw [step.right_own rfl rfl, and_iff_right (checkDecodes_raw step.delivery rfl),
      checkChunks_eq_nil step.delivery rfl]
    rfl

end Delivering

section Legality

/-- What the builder promises of its arguments: bytes are read back, and keywords are new and distinct. -/
def ScriptCall.Documented : ScriptCall → Prop
  | deliver call => call.Documented
  | up _ _ _ kw => DistinctKeys kw ∧
    EveryField (fun key _ => key ∉ ["step", "op", "pipe", "dir", "via"]) kw
  | _ => True

/-- A lane is named of one pipe only. -/
def LaneOfPipe (pipe : Value) (lane : Nat) : Prop := lane ≠ 0 → pipe.toJson.text ≠ some "*"

/-- A lane of a pipe is counted from one. -/
theorem laneOfPipe_iff {pipe : Value} {lane : Nat} :
    LaneOfPipe pipe lane ↔ (lane ≠ 0 → pipe.toJson.text ≠ some "*" ∧ 1 ≤ lane) := by
  refine imp_congr_right ?_
  intro numbered
  exact (and_iff_left (Nat.one_le_iff_ne_zero.mpr numbered)).symm

/-- A close is known in the space that it is said to come from. -/
def KnownClose (space : String) (code : Value) : Prop :=
  (space = "transport" ∧ code.Among (transportErrors.map fun row => row.1.text)) ∨
  (space = "application" ∧ code.toJson.integer ≠ none) ∨
  (space = "local" ∧ code.Among localReasons)

/-- What the operations of a trace ask of a call, where some handles are bound before it. -/
def ScriptCall.Legal (binds : List String) : ScriptCall → Prop
  | deliver call => call.Consistent
  | up pipe dir via kw =>
    EveryField (fun key _ => key ∈ ["carrier", "oob_join", "carrier_binding", "pairing", "framing",
      "source", "conn"]) kw ∧
    (pipe.isSome ≠ hasField kw "carrier") ∧ dir ∈ ["in", "out", "bidi"] ∧
    (∀ kind ∈ given via, kind ∈ ["bootstrap", "listener", "lane"]) ∧
    (given via = some "lane" →
      hasField kw "carrier" = true ∧ hasField kw "conn" = true ∧ dir = "in")
  | down _ dir how _ _ => dir ∈ ["in", "out", "bidi"] ∧ how ∈ ["eof", "error"]
  | api call _ _ args => call ∈ apiCalls ∧
    ∀ handle, ((args.lookup "stream").map Value.toJson).bind Value.text = some handle →
      handle ∈ binds
  | frames pipe patterns matching _ lane => LaneOfPipe pipe lane ∧
    matching ∈ ["exact", "contains", "unordered", "first"] ∧
    ∀ pattern ∈ patterns, pattern.KnownPattern
  | noFrames pipe types lane => LaneOfPipe pipe lane ∧ ∀ type ∈ types, type ∈ patternNames
  | closed code space _ _ => KnownClose space code
  | state session pipe _ pstate => (∀ name ∈ given session, name ∈ sessionStates) ∧
    (pipe ≠ none → pstate.toJson.truthy = true → pstate.Offers pipeStates)
  | event name fields => name ∈ traceEvents ∧ (name = "established" →
    ((fields.lookup "features").getD (.list [])).EachAmong features)
  | noEvent name => name ∈ traceEvents
  | pipeClosed _ dir _ _ => dir ∈ ["in", "out", "bidi"]
  | laneUp _ _ | writable _ _ | expectLocalTp | isOpen | rejectCarrier _ | adv _ | note _ => True

/-- The handles that a call binds for the calls after it. -/
def ScriptCall.bound : ScriptCall → List String
  | api _ _ bind _ => (given bind).toList
  | _ => []

/-- Calls are legal one after the other, each with the handles that those before it bound. -/
def LegalFrom (binds : List String) : List ScriptCall → Prop
  | [] => True
  | call :: calls => call.Legal binds ∧ LegalFrom (binds ++ call.bound) calls

variable {binds : List String} {i : Nat}

/-- The line of a step is right exactly when a call is legal, and binds what the call binds. -/
def Written (call : ScriptCall) (step : TraceStep) : Prop :=
  ∀ binds i, (checkStep binds i (step.line i) = .ok [] ↔ call.Legal binds) ∧
    boundBehind binds (step.line i) = binds ++ call.bound

/-- A step of another operation than calls of the application is written when its line is right. -/
theorem written_of {call : ScriptCall} {op : String} {rest : Fields}
    (distinct : DistinctKeys (("op", .str op) :: rest))
    (unnumbered : EveryField (fun key _ => key ≠ "step") rest)
    (other : op ≠ "api") (unbound : call.bound = [])
    (right : ∀ binds i, checkStep binds i (opLine i op rest) = .ok [] ↔ call.Legal binds) :
    Written call (.other (("op", .str op) :: rest)) := by
  intro binds i
  -- The line is the operation and the rest of its fields, behind the number.
  have line : TraceStep.line (.other (("op", .str op) :: rest)) i = opLine i op rest := by
    apply TraceStep.line_eq
    · exact distinct
    · rw [TraceStep.fields, everyField_cons]
      exact ⟨by decide, unnumbered⟩
  -- Handles are bound by calls of the application only.
  have named : textAt (opLine i op rest) "op" = some op := by
    rw [textAt, lookup_line (by decide), List.lookup_cons_self]
    rfl
  rw [line, right, boundBehind, named, if_neg, unbound, List.append_nil]
  · exact ⟨Iff.rfl, rfl⟩
  · rw [Option.some.injEq]
    exact other

section Dispatch

variable {s : Fields}

/-- A pipe that comes up is checked as such. -/
theorem checkOperation_up : checkOperation "pipe_up" binds s = checkPipeUp s := by
  simp [checkOperation]

/-- A call of the application is checked as such. -/
theorem checkOperation_api : checkOperation "api" binds s = checkApi binds s := by
  simp [checkOperation]

/-- Expected frames are checked as such. -/
theorem checkOperation_frames : checkOperation "expect_frames" binds s = checkExpectFrames s := by
  simp [checkOperation]

/-- Frames that must not come are checked as such. -/
theorem checkOperation_noFrames :
    checkOperation "expect_no_frames" binds s = checkExpectNoFrames s := by
  simp [checkOperation]

/-- An expected close is checked as such. -/
theorem checkOperation_close : checkOperation "expect_close" binds s = checkExpectClose s := by
  simp [checkOperation]

/-- An expected state is checked as such. -/
theorem checkOperation_state : checkOperation "expect_state" binds s = checkState s := by
  simp [checkOperation]

/-- An expected event is checked with its fields. -/
theorem checkOperation_event :
    checkOperation "expect_event" binds s = checkEvent "expect_event" s := by
  simp [checkOperation]

/-- An event that must not come is checked without fields. -/
theorem checkOperation_noEvent :
    checkOperation "expect_no_event" binds s = checkEvent "expect_no_event" s := by
  simp [checkOperation]

end Dispatch

/-- The fields of a pipe that comes up are its own, and the keywords behind them. -/
theorem up_fields {pipe : Option Nat} {dir : String} {via : Option String} {kw : Fields}
    (distinct : DistinctKeys kw)
    (new : EveryField (fun key _ => key ∉ ["step", "op", "pipe", "dir", "via"]) kw) :
    upFields pipe dir via kw = ("op", .str "pipe_up") :: (optional "pipe" .nat pipe
      ++ [("dir", .str dir)] ++ optional "via" .str (given via) ++ kw) := by
  rw [upFields, update_eq_append distinct]
  · simp
  · -- No keyword is one of the fields that are written in front.
    intro field member
    have other := new field member
    simp only [List.mem_cons, List.not_mem_nil, or_false, not_or] at other
    obtain ⟨-, called, piped, directed, chosen⟩ := other
    have called : "op" ≠ field.1 := Ne.symm called
    have piped : "pipe" ≠ field.1 := Ne.symm piped
    have directed : "dir" ≠ field.1 := Ne.symm directed
    have chosen : "via" ≠ field.1 := Ne.symm chosen
    simp [called, piped, directed, chosen]

/-- A key that is not there is not found. -/
theorem lookup_new {key : String} {fields : Fields} (new : hasField fields key = false) :
    fields.lookup key = none := by
  -- The induction is on the fields, none of which has the key.
  induction fields with
  | nil => rfl
  | cons field fields ih =>
    rw [hasField_cons, Bool.or_eq_false_iff, decide_eq_false_iff_not] at new
    rw [lookup_field, if_neg (Ne.symm new.1), ih new.2]

/-- A key that no field has is not there. -/
theorem hasField_new {key : String} {fields : Fields}
    (new : EveryField (fun other _ => other ≠ key) fields) : hasField fields key = false := by
  rw [hasField, List.any_eq_false]
  intro field member
  simpa using new field member

/-- A pipe that comes up is right exactly when the call is legal. -/
theorem up_right {pipe : Option Nat} {dir : String} {via : Option String} {kw : Fields}
    (new : EveryField (fun key _ => key ∉ ["step", "op", "pipe", "dir", "via"]) kw) :
    checkStep binds i (opLine i "pipe_up" (optional "pipe" .nat pipe ++ [("dir", .str dir)]
      ++ optional "via" .str (given via) ++ kw)) = .ok [] ↔
        (ScriptCall.up pipe dir via kw).Legal binds := by
  have row : ("pipe_up", ["dir"], ["pipe", "carrier", "via", "oob_join", "carrier_binding",
    "pairing", "framing", "source", "conn"]) ∈ ops := by simp [ops]
  -- The keywords are new, so every field in front of them is found first.
  have free : ∀ key ∈ ["step", "op", "pipe", "dir", "via"], hasField kw key = false := by
    intro key listed
    apply hasField_new
    intro field member same
    exact new field member (same ▸ listed)
  have plain : EveryField (fun key _ => key ≠ "step" ∧ key ≠ "op") kw := by
    intro field member
    have other := new field member
    simp only [List.mem_cons, not_or] at other
    exact ⟨other.1, other.2.1⟩
  -- A keyword is known when it is one of the fields that may be added.
  have known : EveryField (fun key _ => key ∈ ["dir"] ++ ["pipe", "carrier", "via", "oob_join",
      "carrier_binding", "pairing", "framing", "source", "conn"]) kw ↔
      EveryField (fun key _ => key ∈ ["carrier", "oob_join", "carrier_binding", "pairing",
        "framing", "source", "conn"]) kw := by
    refine forall₂_congr ?_
    intro field member
    have other := new field member
    simp only [List.mem_cons, List.not_mem_nil, or_false, not_or] at other
    simp [other]
  rw [checkStep_eq_nil row (by simp [plain]), checkOperation_up,
    @checkPipeUp_eq_nil _ _ _ dir (given via) (by simp)
      (by simp [lookup_new (free "via" (by simp))])]
  simp only [CommonChecks, everyField_append, known]
  simp [free, ScriptCall.Legal, and_assoc]

/-- A call of the application is right exactly when it is legal. -/
theorem api_right {call : String} {expect : Option Value} {bind : Option String} {args : Fields} :
    checkStep binds i (opLine i "api" ([("call", .str call), ("args", .dict args)]
      ++ optional "bind" .str (given bind) ++ optional "expect" id expect)) = .ok [] ↔
        (ScriptCall.api call expect bind args).Legal binds := by
  have row : ("api", ["call", "args"], ["bind", "expect"]) ∈ ops := by simp [ops]
  rw [checkStep_eq_nil row (by simp), and_iff_right (by simp [CommonChecks]), checkOperation_api,
    @checkApi_eq_nil _ _ _ _ (.str call) args (by simp) (by simp), among_str]
  rfl

/-- Expected frames are right exactly when the call is legal. -/
theorem frames_right {pipe : Value} {patterns : List Value} {matching : String} {once : Bool}
    {lane : Nat} : checkStep binds i (opLine i "expect_frames" ([("pipe", pipe)] ++ laneField lane
      ++ [("match", .str matching), ("frames", .list patterns)]
      ++ if once then [("one_credit_per_record", .bool true)] else [])) = .ok [] ↔
        (ScriptCall.frames pipe patterns matching once lane).Legal binds := by
  have row : ("expect_frames", ["pipe", "frames", "match"], ["lane", "one_credit_per_record"]) ∈
    ops := by simp [ops]
  rw [checkStep_eq_nil row (by cases once <;> simp), checkOperation_frames,
    @checkExpectFrames_eq_nil _ _ _ (.str matching) patterns (by simp) (by simp), among_str]
  -- A lane that is written is counted from one.
  refine and_congr_left' ?_
  rw [laneOfPipe_iff]
  cases once <;> simp [CommonChecks]

/-- Frames that must not come are right exactly when the call is legal. -/
theorem noFrames_right {pipe : Value} {types : List String} {lane : Nat} :
    checkStep binds i (opLine i "expect_no_frames" ([("pipe", pipe)] ++ laneField lane
      ++ if types ≠ [] then [("types", .list (types.map .str))] else [])) = .ok [] ↔
        (ScriptCall.noFrames pipe types lane).Legal binds := by
  have row : ("expect_no_frames", ["pipe"], ["lane", "types"]) ∈ ops := by simp [ops]
  -- The types are written as texts, and compared as such.
  have known : (∀ type ∈ types.map Value.str, type.Among patternNames) ↔
      ∀ type ∈ types, type ∈ patternNames := by
    rw [List.forall_mem_map]
    simp only [among_str]
  rw [checkStep_eq_nil row, checkOperation_noFrames,
    @checkExpectNoFrames_eq_nil _ _ _ (types.map .str), known]
  · refine and_congr_left' ?_
    rw [laneOfPipe_iff]
    by_cases empty : types = [] <;> simp [CommonChecks, empty]
  · by_cases empty : types = [] <;> simp [empty]
  · by_cases empty : types = [] <;> simp [empty]

/-- The value that a close has on the wire stands behind its error, where there is one. -/
theorem closeFields_eq {code : Value} {space : String} {wire : CloseWire} {remote : Option Bool} :
    ∃ shown : Option Value, closeFields code space wire remote = ("op", .str "expect_close") ::
      ([("error", .dict ([("space", .str space), ("code", code)] ++ optional "remote" .bool remote))]
        ++ optional "wire" id shown) := by
  rw [closeFields]
  split
  · exact ⟨none, rfl⟩
  · exact ⟨some (closeWire space remote wire), rfl⟩

/-- An expected close is right exactly when the call is legal. -/
theorem closed_right {code : Value} {space : String} {wire : CloseWire} {remote : Option Bool}
    {shown : Option Value} : checkStep binds i (opLine i "expect_close"
      ([("error", .dict ([("space", .str space), ("code", code)] ++ optional "remote" .bool remote))]
        ++ optional "wire" id shown)) = .ok [] ↔
          (ScriptCall.closed code space wire remote).Legal binds := by
  have row : ("expect_close", ["error"], ["wire"]) ∈ ops := by simp [ops]
  rw [checkStep_eq_nil row (by simp), and_iff_right (by simp [CommonChecks]), checkOperation_close,
    @checkExpectClose_eq_nil _ _ _ code space (optional "remote" .bool remote) (by simp)]
  rfl

/-- A text that is given is not empty. -/
theorem given_filled (text : Option String) : given text ≠ some "" := by simp [given]

/-- An expected state is right exactly when the call is legal. -/
theorem state_right {session : Option String} {pipe : Option Nat} {dir : Option String}
    {pstate : Value} : checkStep binds i (opLine i "expect_state"
      (optional "session" .str (given session) ++ match pipe with
        | some pipe => [("pipe", .nat pipe), ("dir", strOrNone dir), ("state", pstate)]
        | none => [])) = .ok [] ↔ (ScriptCall.state session pipe dir pstate).Legal binds := by
  have row : ("expect_state", [], ["session", "pipe", "dir", "state"]) ∈ ops := by simp [ops]
  rw [checkStep_eq_nil row (by cases pipe <;> simp),
    and_iff_right (by cases pipe <;> simp [CommonChecks]), checkOperation_state,
    @checkState_eq_nil _ _ _ (given session) (by cases pipe <;> simp)
      (given_filled session)]
  cases pipe <;> simp [ScriptCall.Legal]

/-- An expected event is right exactly when the call is legal. -/
theorem event_right {name : String} {fields : Fields} :
    checkStep binds i (opLine i "expect_event"
      [("event", .str name), ("fields", .dict fields)]) = .ok [] ↔
        (ScriptCall.event name fields).Legal binds := by
  have row : ("expect_event", ["event", "fields"], []) ∈ ops := by simp [ops]
  rw [checkStep_eq_nil row (by simp), and_iff_right (by simp [CommonChecks]),
    checkOperation_event, @checkEvent_eq_nil _ _ _ name fields (by simp) (by simp)]
  simp [ScriptCall.Legal]

/-- An event that must not come is right exactly when the call is legal. -/
theorem noEvent_right {name : String} :
    checkStep binds i (opLine i "expect_no_event" [("event", .str name)]) = .ok [] ↔
      (ScriptCall.noEvent name).Legal binds := by
  have row : ("expect_no_event", ["event"], []) ∈ ops := by simp [ops]
  rw [checkStep_eq_nil row (by simp), and_iff_right (by simp [CommonChecks]),
    checkOperation_noEvent, @checkEvent_eq_nil _ _ _ name [] (by simp) (by simp)]
  simp [ScriptCall.Legal]

/-- A lane that comes up is always right. -/
theorem laneUp_right {carrier conn : String} : checkStep binds i (opLine i "pipe_up"
    [("carrier", .str carrier), ("dir", .str "in"), ("via", .str "lane"), ("conn", .str conn)]) =
      .ok [] := by
  have row : ("pipe_up", ["dir"], ["pipe", "carrier", "via", "oob_join", "carrier_binding",
    "pairing", "framing", "source", "conn"]) ∈ ops := by simp [ops]
  rw [checkStep_eq_nil row (by simp), and_iff_right (by simp [CommonChecks]), checkOperation_up,
    @checkPipeUp_eq_nil _ _ _ "in" (some "lane") (by simp) (by simp)]
  simp

/-- A lane is written once. -/
@[simp] theorem distinctKeys_laneField (lane : Nat) : DistinctKeys (laneField lane) := by
  rw [laneField]
  split <;> simp

/-- The pattern of the parameters that the local endpoint sends is known, and comes first. -/
theorem localTp_legal {params : Value} :
    (ScriptCall.frames (.nat 0) [.dict [("type", .str "QX_TRANSPORT_PARAMETERS"),
      ("params_include", params), ("grease", .bool true)]] "first" false 0).Legal binds := by
  refine ⟨fun numbered => absurd rfl numbered, by simp, ?_⟩
  rw [List.forall_mem_singleton]
  -- The one pattern names the type of the parameters.
  refine ⟨_, .str "QX_TRANSPORT_PARAMETERS", rfl, rfl, .inr ⟨_, rfl, ?_⟩⟩
  rw [List.forall_mem_singleton, among_iff, among_str]
  decide +kernel

variable {t next : Script}

/-- What a call appends: one step, under the same header. -/
def Appends (t next : Script) (step : TraceStep) : Prop :=
  next.steps = t.steps ++ [step] ∧ next.header = t.header

/-- A call that delivers bytes appends the step of the call, whatever steps are there. -/
theorem deliver_appends {call : Call} (applied : t.deliver call = .ok next) :
    ∃ (after : Trace), call.apply ⟨[], t.peerSent⟩ = .ok after ∧
      next.steps = t.steps ++ after.steps.map .deliver ∧ next.header = t.header := by
  simp only [Script.deliver, bind_eq_ok, pure_ok, Except.ok.injEq] at applied
  obtain ⟨after, applied, rfl⟩ := applied
  exact ⟨after, applied, rfl, rfl⟩

/-- A call appends one step, whose line is right exactly when the call is legal. -/
theorem ScriptCall.appends {call : ScriptCall} (documented : call.Documented)
    (applied : call.apply t = .ok next) : ∃ step, Appends t next step ∧ Written call step := by
  -- Each call writes the fields of its own operation, whose line is right as the lemma of that
  -- operation says.
  cases call with
  | deliver call =>
    -- The one step that is delivered is that of the call.
    obtain ⟨after, called, steps, header⟩ := deliver_appends applied
    obtain ⟨step, one, right⟩ := Call.right documented called
    refine ⟨.deliver step, ⟨?_, header⟩, ?_⟩
    · rw [steps, one]
      rfl
    · intro binds i
      have line : TraceStep.line (.deliver step) i = step.sentLine i := by
        rw [@TraceStep.line_eq (.deliver step) i step.distinct step.unnumbered, TraceStep.fields,
          step.fields_eq]
      have named : textAt (step.sentLine i) "op" = some "peer_send" := by
        rw [textAt, lookup_line (by decide), List.lookup_cons_self]
        rfl
      rw [line, right, boundBehind, named]
      simp [Legal, bound]
  | up pipe dir via kw =>
    obtain ⟨distinct, new⟩ := documented
    cases applied
    refine ⟨_, ⟨rfl, rfl⟩, ?_⟩
    rw [up_fields distinct new]
    -- The keywords are none of the fields that are written in front of them.
    have apart : ∀ name ∈ ["step", "op", "pipe", "dir", "via"],
        EveryField (fun other _ => name ≠ other) kw := by
      intro name listed field member same
      exact new field member (same ▸ listed)
    have unnumbered : EveryField (fun key _ => key ≠ "step") kw := by
      intro field member
      exact (apart "step" (by simp) field member).symm
    simp only [ne_eq] at apart
    exact written_of (by simp [apart, distinct]) (by simp [unnumbered]) (by decide) rfl
      (fun binds i => up_right new)
  | laneUp carrier conn =>
    cases applied
    exact ⟨_, ⟨rfl, rfl⟩, written_of (by simp) (by simp) (by decide) rfl
      (fun binds i => iff_of_true laneUp_right trivial)⟩
  | down pipe dir how carrier lane =>
    cases applied
    refine ⟨_, ⟨rfl, rfl⟩, ?_⟩
    -- A carrier has no lane.
    cases carrier with
    | some carrier =>
      exact written_of (by simp) (by simp) (by decide) rfl (fun binds i =>
        (down_right : checkStep binds i (stepLine i (downFields pipe dir how (some carrier) lane)) =
          .ok [] ↔ _))
    | none =>
      have shape : downFields pipe dir how none lane = ("op", .str "pipe_down") ::
        ([("pipe", natOrNone pipe)] ++ laneField lane ++ [("dir", .str dir), ("how", .str how)]) := rfl
      rw [shape]
      exact written_of (by simp) (by simp) (by decide) rfl (fun binds i =>
        (down_right : checkStep binds i (stepLine i (downFields pipe dir how none lane)) =
          .ok [] ↔ _))
  | writable pipe w =>
    cases applied
    exact ⟨_, ⟨rfl, rfl⟩, written_of (by simp) (by simp) (by decide) rfl
      (fun binds i => iff_of_true writable_right trivial)⟩
  | api call expect bind args =>
    cases applied
    refine ⟨_, ⟨rfl, rfl⟩, ?_⟩
    intro binds i
    -- The line of a call of the application is its fields behind the number.
    have line : TraceStep.line (.other ([("op", .str "api"), ("call", .str call),
        ("args", .dict args)] ++ optional "bind" .str (given bind) ++ optional "expect" id expect)) i =
      opLine i "api" ([("call", .str call), ("args", .dict args)]
        ++ optional "bind" .str (given bind) ++ optional "expect" id expect) := by
      apply TraceStep.line_eq <;> simp [TraceStep.fields]
    have named : textAt (opLine i "api" ([("call", .str call), ("args", .dict args)]
        ++ optional "bind" .str (given bind) ++ optional "expect" id expect)) "op" = some "api" := by
      rw [textAt, lookup_line (by decide), List.lookup_cons_self]
      rfl
    rw [line, api_right, boundBehind, if_pos named, textAt_opLine (by decide) (by decide)]
    refine ⟨Iff.rfl, ?_⟩
    rw [bound]
    cases given bind <;> simp
  | frames pipe patterns matching once lane =>
    cases applied
    exact ⟨_, ⟨rfl, rfl⟩, written_of (by cases once <;> simp) (by cases once <;> simp) (by decide) rfl
      (fun binds i => frames_right)⟩
  | expectLocalTp =>
    simp only [apply, Script.expectLocalTp, bind_eq_ok, pure_ok, Except.ok.injEq] at applied
    obtain ⟨params, -, rfl⟩ := applied
    exact ⟨_, ⟨rfl, rfl⟩, written_of (by simp) (by simp) (by decide) rfl
      (fun binds i => frames_right.trans (iff_of_true localTp_legal trivial))⟩
  | noFrames pipe types lane =>
    cases applied
    exact ⟨_, ⟨rfl, rfl⟩, written_of (by by_cases empty : types = [] <;> simp [empty])
      (by by_cases empty : types = [] <;> simp [empty]) (by decide) rfl (fun binds i => noFrames_right)⟩
  | closed code space wire remote =>
    cases applied
    obtain ⟨shown, fields⟩ := @closeFields_eq code space wire remote
    refine ⟨_, ⟨rfl, rfl⟩, ?_⟩
    rw [fields]
    exact written_of (by simp) (by simp) (by decide) rfl (fun binds i => closed_right)
  | isOpen =>
    cases applied
    exact ⟨_, ⟨rfl, rfl⟩, written_of (by simp) (by simp) (by decide) rfl
      (fun binds i => iff_of_true isOpen_right trivial)⟩
  | state session pipe dir pstate =>
    cases applied
    exact ⟨_, ⟨rfl, rfl⟩, written_of (by cases pipe <;> simp) (by cases pipe <;> simp) (by decide) rfl
      (fun binds i => state_right)⟩
  | event name fields =>
    cases applied
    exact ⟨_, ⟨rfl, rfl⟩, written_of (by simp) (by simp) (by decide) rfl
      (fun binds i => event_right)⟩
  | noEvent name =>
    cases applied
    exact ⟨_, ⟨rfl, rfl⟩, written_of (by simp) (by simp) (by decide) rfl
      (fun binds i => noEvent_right)⟩
  | pipeClosed pipe dir how lane =>
    cases applied
    exact ⟨_, ⟨rfl, rfl⟩, written_of (by simp) (by simp) (by decide) rfl
      (fun binds i => pipeClosed_right)⟩
  | rejectCarrier carrier =>
    cases applied
    exact ⟨_, ⟨rfl, rfl⟩, written_of (by simp) (by simp) (by decide) rfl
      (fun binds i => iff_of_true rejectCarrier_right trivial)⟩
  | adv ms =>
    cases applied
    exact ⟨_, ⟨rfl, rfl⟩, written_of (by simp) (by simp) (by decide) rfl
      (fun binds i => iff_of_true adv_right trivial)⟩
  | note text =>
    cases applied
    exact ⟨_, ⟨rfl, rfl⟩, written_of (by simp) (by simp) (by decide) rfl
      (fun binds i => iff_of_true note_right trivial)⟩

/-- A run appends one step for each call, each of them written as its call says. -/
theorem runScript_appends {calls : List ScriptCall} (documented : ∀ call ∈ calls, call.Documented)
    (run : runScript calls t = .ok next) : ∃ steps, next.steps = t.steps ++ steps ∧
      next.header = t.header ∧ List.Forall₂ Written calls steps := by
  -- The induction is on the calls, each of which appends one step.
  induction calls generalizing t with
  | nil =>
    cases run
    exact ⟨[], (List.append_nil _).symm, rfl, .nil⟩
  | cons call calls ih =>
    simp only [runScript, bind_eq_ok] at run
    obtain ⟨between, applied, run⟩ := run
    rw [List.forall_mem_cons] at documented
    obtain ⟨step, ⟨one, same⟩, written⟩ := ScriptCall.appends documented.1 applied
    obtain ⟨steps, others, kept, rest⟩ := ih documented.2 run
    refine ⟨step :: steps, ?_, kept.trans same, .cons written rest⟩
    rw [others, one, List.append_assoc, List.singleton_append]

/-- Naming the trace and the step in front of reports leaves none where there are none. -/
theorem map_eq_nil {tid : String} {i : Nat} {reports : Except Failure (List String)} :
    (reports.map fun reports => reports.map fun report =>
      "trace " ++ tid ++ " step " ++ toString i ++ ": " ++ report) = .ok [] ↔ reports = .ok [] := by
  cases reports <;> simp

/-- The lines of steps are right when the calls are legal one after the other. -/
theorem checkSteps_eq_nil {tid : String} {calls : List ScriptCall} {steps : List TraceStep}
    (written : List.Forall₂ Written calls steps) (binds : List String) (i : Nat) :
    checkSteps tid binds i (steps.mapIdx fun k step => step.line (k + i)) = .ok [] ↔
      LegalFrom binds calls := by
  have both := @Reports.clean_both Failure String
  simp only [Reports.Clean] at both
  -- The induction is on the steps, side by side with the calls that wrote them.
  induction written generalizing binds i with
  | nil => simp [checkSteps, LegalFrom]
  | @cons call step calls steps first _ ih =>
    -- The rest of the steps is numbered from one further on.
    have shifted : (fun k (step : TraceStep) => step.line (k + 1 + i)) =
        fun k step => step.line (k + (i + 1)) := by
      funext k step
      rw [Nat.add_assoc, Nat.add_comm 1 i]
    obtain ⟨right, bound⟩ := first binds i
    rw [List.mapIdx_cons, checkSteps, both, map_eq_nil, Nat.zero_add, right, bound, shifted]
    exact and_congr_right' (ih _ _)

/-- What the header of a trace must name: a profile, a role, and references that resolve. -/
def Header.Known (refOk : String → Bool) (header : Header) : Prop :=
  header.profile ∈ profiles.map Prod.fst ∧ header.localRole ∈ ["initiator", "responder"] ∧
    ∀ ref ∈ header.refs, refOk ref = true

/-- A header is right exactly when what it names is known. -/
theorem checkHeader_eq_nil {refOk : String → Bool} {header : Header} :
    checkHeader refOk (fieldsToJson header.fields) = .ok [] ↔ header.Known refOk := by
  -- The references are written as they were given.
  have refs : ((fieldsToJson header.fields).lookup "refs").getD (.list []) =
      .list (header.refs.map .str) := by
    rw [lookup_toJson]
    simp [Header.fields, toJson_list]
  -- Every field that a header must have is written.
  have present : ∀ key ∈ ["kind", "id", "title", "profile", "local_role", "refs", "groups"],
      hasField (fieldsToJson header.fields) key = true := by
    intro key listed
    rw [hasField_toJson]
    simp only [List.mem_cons, List.not_mem_nil, or_false] at listed
    rcases listed with rfl | rfl | rfl | rfl | rfl | rfl | rfl <;> simp [Header.fields]
  have profile : textAt (fieldsToJson header.fields) "profile" = some header.profile := by
    rw [textAt, lookup_toJson]
    simp [Header.fields]
  have role : textAt (fieldsToJson header.fields) "local_role" = some header.localRole := by
    rw [textAt, lookup_toJson]
    simp [Header.fields]
  rw [checkHeader, checkHeaderText, refs, Value.listed, ok_bind, pure_ok, Except.ok.injEq, profile, role,
    List.append_eq_nil_iff, List.append_eq_nil_iff, List.append_eq_nil_iff, reportIf_eq_nil,
    reportIf_eq_nil, not_not, not_not, List.flatMap_eq_nil_iff, List.flatMap_eq_nil_iff]
  simp [present, Header.Known, and_assoc]

/-- Lines that are written as calls say are right when the calls are, and there are enough of them. -/
theorem checkTrace_eq_nil {refOk : String → Bool} {calls : List ScriptCall}
    (written : List.Forall₂ Written calls t.steps) :
    checkTrace refOk t.toLines = .ok [] ↔
      t.header.Known refOk ∧ LegalFrom [] calls ∧ 2 ≤ calls.length := by
  -- The reports are those of the header, of the steps, and of their number.
  have both := @Reports.clean_both Failure String
  simp only [Reports.Clean] at both
  rw [Script.toLines, checkTrace, both, both, checkHeader_eq_nil, checkSteps_eq_nil written [] 1,
    Except.ok.injEq, reportIf_eq_nil, List.length_mapIdx, written.length_eq, not_lt]

/-- A file is right when its header is known, and its calls are legal and more than one. -/
theorem script_checked (refOk : String → Bool) (header : Header) (calls : List ScriptCall)
    (t : Script) (documented : ∀ call ∈ calls, call.Documented)
    (run : runScript calls (Script.fresh header) = .ok t) :
    checkTrace refOk t.toLines = .ok [] ↔
      header.Known refOk ∧ LegalFrom [] calls ∧ 2 ≤ calls.length := by
  -- The run appends the steps of its calls to none, under the header it began with.
  obtain ⟨steps, held, same, written⟩ := runScript_appends documented run
  rw [show steps = t.steps from held.symm] at written
  rw [checkTrace_eq_nil written, same]
  rfl

/-- A handshake, a stream that is bound before it is written to, and a frame cut in two pieces. -/
def smallRun : List ScriptCall := [
  .up (some 0) "bidi" (some "bootstrap") [],
  .expectLocalTp,
  .deliver (.send (some 0) [[(Frame.qxPing (some false) 7).dict]] [1, 9] false none),
  .event "established" [("features", .list [.str "goaway"])],
  .api "open_bidi" none (some "s1") [],
  .api "write" none none [("stream", .str "s1"), ("data", .bytes [1, 2])],
  .frames (.nat 0) [.dict [("type", .str "*")]] "contains" false 0,
  .closed (.str "NO_ERROR") "transport" .default (some true)]

/-- The records of the small run are read back, and its keywords are new. -/
theorem smallRun_documented : ∀ call ∈ smallRun, call.Documented := by
  have sent : (Value.list [.list [(Frame.qxPing (some false) 7).dict]]).Recoverable := by
    have ping : (Frame.qxPing (some false) 7).Documented := trivial
    exact ⟨⟨ping.recoverable, trivial⟩, trivial⟩
  simp [smallRun, ScriptCall.Documented, Call.Documented, sent]

/-- Every call of the small run is legal where it stands. -/
theorem smallRun_legal : LegalFrom [] smallRun := by
  -- Only the frame that is sent has to be encoded and decoded.
  have encoded : recordBytesDict (.list [.list [(Frame.qxPing (some false) 7).dict]]) =
      .ok [9, 244, 140, 103, 82, 158, 248, 199, 189, 7] := rfl
  have decoded : decodeStream [9, 244, 140, 103, 82, 158, 248, 199, 189, 7]
      Limits.zmuxMaxRecordSize = .ok [[.qxPing (some false) 7]] := by decide +kernel
  simp [smallRun, LegalFrom, ScriptCall.Legal, Call.Consistent, encoded, decoded,
    ScriptCall.bound, given, traceEvents, apiCalls, eachAmong_list, among_str, features, LaneOfPipe,
    Value.KnownPattern, KnownClose, transportErrors, TransportError.text]

/-- The file of the small run is written, and nothing is wrong with it. -/
theorem script_checked_small : ∃ t,
    runScript smallRun (Script.fresh ⟨"a.b", "t", ["r"], "zmux-small", "responder", []⟩) = .ok t ∧
      checkTrace (fun ref => ref = "r") t.toLines = .ok [] := by
  have ran : ∃ t, runScript smallRun
      (Script.fresh ⟨"a.b", "t", ["r"], "zmux-small", "responder", []⟩) = .ok t := ⟨_, rfl⟩
  obtain ⟨t, run⟩ := ran
  refine ⟨t, run, (script_checked _ _ smallRun t smallRun_documented run).mpr ⟨?_, smallRun_legal, ?_⟩⟩
  · simp [Header.Known, profiles]
  · decide

end Legality

end Zmux
