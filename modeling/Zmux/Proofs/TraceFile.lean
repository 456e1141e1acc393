import Zmux.Codec.TraceFile
import Zmux.Proofs.JsonForm

/-! Frames lose nothing in trace files: their records are encoded to the bytes beside them. -/

namespace Zmux

open Wire

section Plain

variable {fields : Fields}

/-- Fields without a placeholder among them or inside them. -/
abbrev PlainFields (fields : Fields) : Prop :=
  EveryField (fun key value => key ≠ "$sent" ∧ value.hasPlaceholder = false) fields

/-- A dict has no placeholder when it is none, and none of its values has one. -/
@[simp] theorem hasPlaceholder_dict :
    (Value.dict fields).hasPlaceholder = false ↔ PlainFields fields := by
  rw [Value.hasPlaceholder, Bool.or_eq_false_iff]
  -- The induction is on the fields.
  induction fields with
  | nil => simp [hasField, fieldsHavePlaceholder]
  | cons field fields ih =>
    rw [PlainFields, everyField_cons]
    refine Iff.trans ?_ (and_congr_right' ih)
    simp only [hasField, List.any_cons, Bool.or_eq_false_iff, decide_eq_false_iff_not,
      fieldsHavePlaceholder, ne_eq]
    tauto

/-- A list has no placeholder when none of its items has one. -/
@[simp] theorem hasPlaceholder_list {items : List Value} :
    (Value.list items).hasPlaceholder = false ↔ ∀ item ∈ items, item.hasPlaceholder = false := by
  rw [Value.hasPlaceholder]
  -- The induction is on the items.
  induction items with
  | nil => simp [itemsHavePlaceholder]
  | cons item items ih => rw [itemsHavePlaceholder, Bool.or_eq_false_iff, ih, List.forall_mem_cons]

/-- A number has no placeholder. -/
@[simp] theorem hasPlaceholder_nat (number : Nat) : (Value.nat number).hasPlaceholder = false := rfl

/-- A flag has no placeholder. -/
@[simp] theorem hasPlaceholder_bool (flag : Bool) : (Value.bool flag).hasPlaceholder = false := rfl

/-- A text has no placeholder. -/
@[simp] theorem hasPlaceholder_str (text : String) : (Value.str text).hasPlaceholder = false := rfl

/-- Bytes have no placeholder. -/
@[simp] theorem hasPlaceholder_bytes (data : Bytes) : (Value.bytes data).hasPlaceholder = false :=
  rfl

/-- The dict of a parameter has no placeholder. -/
theorem Param.dict_plain (param : Param) : param.dict.hasPlaceholder = false := by
  obtain ⟨id, content⟩ := param
  -- Neither its number or name has one, nor its bytes or value.
  have named : id.form.hasPlaceholder = false := by cases id <;> rfl
  cases content with
  | raw bytes => simp [dict, named]
  | value value =>
    have inside : value.form.hasPlaceholder = false := by
      cases value <;> simp [TpValue.form]
      rfl
    simp [dict, named, inside]

/-- The fields of a frame have no placeholder, on any level of repetition. -/
theorem Frame.parts_plain (f : Frame) : PlainFields f.parts := by
  -- The induction is on the frame, which a repetition has inside it.
  induction f with
  | repeated frame count ih => simpa [Frame.parts] using ih
  | qxTransportParameters block =>
    cases block with
    | params params => simp [Frame.parts, Param.dict_plain]
    | raw bytes => simp [Frame.parts]
  | pipeJoin join =>
    have directed : join.direction.form.hasPlaceholder = false := by
      cases join.direction <;> rfl
    simp [Frame.parts, Join.parts, directed]
  | pipeAck entries => simp [Frame.parts, AckEntry.dict]
  | pipeStatus pipe seq status priority =>
    have stated : status.form.hasPlaceholder = false := by cases status <;> rfl
    simp [Frame.parts, stated]
  | _ => simp [Frame.parts]

/-- The dict of a frame has no placeholder. -/
theorem Frame.dict_plain (f : Frame) : f.dict.hasPlaceholder = false := by
  simp [Frame.dict, f.parts_plain]

end Plain

section Lines

mutual

/-- Placeholders are neither made nor lost by writing a value as JSON. -/
theorem Value.hasPlaceholder_toJson : ∀ value : Value,
    value.toJson.hasPlaceholder = value.hasPlaceholder
  | .dict fields => by
    rw [Value.toJson, Value.hasPlaceholder, Value.hasPlaceholder, hasField_toJson,
      fieldsHavePlaceholder_toJson fields]
  | .list items => itemsHavePlaceholder_toJson items
  | .none | .bool _ | .int _ | .str _ | .bytes _ => rfl

/-- Placeholders are neither made nor lost by writing fields as JSON. -/
theorem fieldsHavePlaceholder_toJson : ∀ fields : Fields,
    fieldsHavePlaceholder (fieldsToJson fields) = fieldsHavePlaceholder fields
  | [] => rfl
  | (_, value) :: fields => by
    rw [fieldsToJson, fieldsHavePlaceholder, fieldsHavePlaceholder, value.hasPlaceholder_toJson,
      fieldsHavePlaceholder_toJson fields]

/-- Placeholders are neither made nor lost by writing items as JSON. -/
theorem itemsHavePlaceholder_toJson : ∀ items : List Value,
    itemsHavePlaceholder (itemsToJson items) = itemsHavePlaceholder items
  | [] => rfl
  | item :: items => by
    rw [itemsToJson, itemsHavePlaceholder, itemsHavePlaceholder, item.hasPlaceholder_toJson,
      itemsHavePlaceholder_toJson items]

end

variable {t next : Trace} {pipe : Option Nat} {chunks : List Nat} {invalid : Bool}
  {carrier : Option String}

/-- The line of a step with records and bytes has both, with the bytes as a text. -/
theorem line_lookup (key : Target) (recs : Value) (invalid : Bool) (b : Bytes) (chunks : List Nat)
    (number : Nat) :
    let line := Step.line ⟨key, some recs, invalid, some b, none, none, chunks⟩ number
    line.lookup "records" = some recs.toJson ∧ line.lookup "hex" = some (.str (hexText b)) := by
  -- The target and the flag stand in front of the two, and have keys of their own.
  cases key <;> cases invalid <;> exact ⟨rfl, rfl⟩

/-- The line that `send` adds for records that are read back has the bytes of these records. -/
theorem Trace.send_line {records : List (List Value)}
    (recoverable : (Value.list (records.map .list)).Recoverable)
    (plain : (Value.list (records.map .list)).hasPlaceholder = false)
    (sent : t.send pipe records chunks invalid carrier = .ok next) :
    ∃ line recs b, next.toLines = t.toLines ++ [line] ∧ line.lookup "records" = some recs ∧
      recordsEncoded recs = .ok b ∧ line.lookup "hex" = some (.str (hexText b)) ∧
      recordBytesDict (.list (records.map .list)) = .ok b ∧ checkRecords line = .ok [] := by
  simp only [Trace.send, plain, Bool.false_eq_true, if_false, bind_eq_ok] at sent
  obtain ⟨b, encoded, added⟩ := sent
  simp only [Trace.add, Except.ok.injEq] at added
  subst added
  have read := Value.fromJson_toJson _ recoverable
  have lines := line_lookup (target pipe carrier) (.list (records.map .list)) invalid b chunks
    (t.steps.length + 1)
  -- What is read back is encoded to the same bytes.
  have bytes : recordsEncoded (Value.list (records.map .list)).toJson = .ok b := by
    rw [recordsEncoded, read, ok_bind, encoded]
  refine ⟨_, _, b, List.mapIdx_concat, lines.1, bytes, lines.2, encoded, ?_⟩
  -- The check reads the records in the same way, and compares the texts.
  have kept := (Value.list (records.map .list)).hasPlaceholder_toJson.trans plain
  rw [Value.toJson] at lines read kept
  simp only [checkRecords, lines, read, ok_bind, kept, Bool.false_eq_true, if_false, encoded,
    Option.bind_some, Value.text, if_true, pure_ok]

end Lines

/-- The parameters of a decoded block are numbers with their bytes, and names with their values. -/
theorem Param.Decoded.documented {param : Param} (decoded : param.Decoded) : param.Documented := by
  intro data same
  -- A decoded parameter is a number with its bytes, or a name with the value of its format.
  rcases decoded.kinds with ⟨id, literal, rfl, -⟩ | ⟨row, format, value, rfl, -, -, -, formed⟩
  · cases same
  · cases same
    cases format <;> exact formed

/-- Decoded frames are in the documented form. -/
theorem Frame.Decoded.documented {f : Frame} (decoded : f.Decoded) : f.Documented := by
  cases f with
  | qxTransportParameters block =>
    -- Only a block of parameters has values that must have a form.
    cases block with
    | params params =>
      intro param member
      exact (decoded.each param member).documented
    | raw bytes => trivial
  | repeated frame count => exact decoded.elim
  | _ => trivial

/-- Frames in the documented form are read back from their JSON form. -/
theorem framesForm_fromJson {fs : List Frame} (documented : ∀ f ∈ fs, f.Documented) :
    (Value.list (fs.map Frame.dict)).toJson.fromJson = .ok (.list (fs.map Frame.dict)) := by
  apply Value.fromJson_toJson
  apply itemsRecoverable_iff.mpr
  simp only [List.forall_mem_map]
  -- Every frame is read back by itself.
  intro f member
  exact (documented f member).recoverable

/--
The JSON form of frames loses nothing, whether they were built or decoded.

The records of every line that `send` writes are encoded to the bytes stored beside them.
-/
theorem jsonForm_lossless :
    (∀ fs : List Frame, (∀ f ∈ fs, f.Documented) →
      (Value.list (fs.map Frame.dict)).toJson.fromJson = .ok (.list (fs.map Frame.dict))) ∧
    (∀ (payload : Bytes) (enabled : Gates) (limit : Option Nat) (fs : List Frame),
      decodeFrames payload enabled limit = .ok fs →
      (Value.list (fs.map Frame.dict)).toJson.fromJson = .ok (.list (fs.map Frame.dict)) ∧
      ∀ f ∈ fs, (f.dict.toJson.fromJson >>= encodeFrameDict) = encodeFrame f) ∧
    ∀ (t next : Trace) (pipe : Option Nat) (records : List (List Frame)) (chunks : List Nat)
      (invalid : Bool) (carrier : Option String), (∀ fs ∈ records, ∀ f ∈ fs, f.Documented) →
      t.send pipe (records.map fun fs => fs.map Frame.dict) chunks invalid carrier = .ok next →
      ∃ line recs b, next.toLines = t.toLines ++ [line] ∧ line.lookup "records" = some recs ∧
        recordsEncoded recs = .ok b ∧ line.lookup "hex" = some (.str (hexText b)) ∧
        recordBytes records = .ok b ∧ checkRecords line = .ok [] := by
  refine ⟨fun fs => framesForm_fromJson, ?_, ?_⟩
  · intro payload enabled limit fs decoded
    -- What is decoded is documented, so it is read back.
    have each := (decodeFrames_eq_ok.mp decoded).decoded
    have documented : ∀ f ∈ fs, f.Documented := fun f member => (each f member).documented
    refine ⟨framesForm_fromJson documented, ?_⟩
    intro f member
    rw [Value.fromJson_toJson _ (documented f member).recoverable, ok_bind, encodeFrameDict_dict]
  · intro t next pipe records chunks invalid carrier documented sent
    -- The records that are sent are the dicts of their frames.
    have dicts : (records.map fun fs => fs.map Frame.dict).map Value.list =
        records.map fun fs => .list (fs.map Frame.dict) := List.map_map
    rw [← recordBytesDict_form, recordsForm, ← dicts]
    apply Trace.send_line _ _ sent
    · apply itemsRecoverable_iff.mpr
      simp only [List.forall_mem_map]
      intro fs listed
      apply itemsRecoverable_iff.mpr
      simp only [List.forall_mem_map]
      intro f member
      exact (documented fs listed f member).recoverable
    · simp [Frame.dict_plain]

/-- A repeated block with a multipath value and an unknown number, and bytes as they are. -/
theorem jsonForm_lossless_nested :
    let fs : List Frame := [.repeated (.qxTransportParameters (.params
      [⟨.name .zmuxMultipath, .value (.multipath 4 (List.replicate 16 7) [76])⟩,
        ⟨.num 120, .raw [0x9A, 0x7B]⟩])) 2, .raw [1, 2]]
    (Value.list (fs.map Frame.dict)).toJson.fromJson = .ok (.list (fs.map Frame.dict)) := by
  refine jsonForm_lossless.1 _ ?_
  intro f member
  simp only [List.mem_cons, List.not_mem_nil, or_false] at member
  -- The repeated block has values of its own, and the bytes have none.
  rcases member with rfl | rfl
  · intro param listed data
    simp only [List.mem_cons, List.not_mem_nil, or_false] at listed
    rcases listed with rfl | rfl <;> simp
  · trivial

end Zmux
