import Zmux.Proofs.FrameDict
import Zmux.Proofs.Payloads

/-! The JSON form of frames loses nothing: what is read back is what was written. -/

namespace Zmux

open Wire

/-- The value of a multipath parameter, whose parts are recognized together. -/
def multipathFields (flags : Nat) (nonce locator : Bytes) : Fields :=
  [("flags", .nat flags), ("nonce", .bytes nonce), ("locator", .bytes locator)]

/-- What may stand under a key, where `inside` says that the value can be read back on its own. -/
def FieldRecoverable (key : String) (value : Value) (inside : Prop) : Prop :=
  match value with
  | .bytes _ => key ∈ bytesFields
  | .str _ => key ∉ bytesFields
  | .dict fields =>
    if key = "value" ∧ hasField fields "locator" = true then
      ∃ flags nonce locator, fields = multipathFields flags nonce locator
    else inside
  | _ => inside

mutual

/-- Byte strings stand under their own keys only, and texts never do. -/
def Value.Recoverable : Value → Prop
  | .dict fields => FieldsRecoverable fields
  | .list items => ItemsRecoverable items
  | .bytes _ => False
  | .none | .bool _ | .int _ | .str _ => True

/-- Every field of a dict is read back under its key. -/
def FieldsRecoverable : Fields → Prop
  | [] => True
  | (key, value) :: fields =>
    FieldRecoverable key value value.Recoverable ∧ FieldsRecoverable fields

/-- Every item of a list is read back on its own. -/
def ItemsRecoverable : List Value → Prop
  | [] => True
  | item :: items => item.Recoverable ∧ ItemsRecoverable items

end

/-- Writing a dict as JSON keeps its keys. -/
theorem hasField_toJson (fields : Fields) (key : String) :
    hasField (fieldsToJson fields) key = hasField fields key := by
  -- The induction is on the fields, whose keys stay as they are.
  induction fields with
  | nil => rfl
  | cons field fields ih =>
    simp only [hasField] at ih ⊢
    rw [fieldsToJson, List.any_cons, List.any_cons, ih]

/-- Bytes are read back from their text. -/
theorem fromHex_hexText (data : Bytes) : fromHex (hexText data) = .ok data := by
  rw [fromHex, readHex_hexText]

/-- The value of a multipath parameter is read back, its nonce included. -/
theorem multipathFromJson_toJson (flags : Nat) (nonce locator : Bytes) :
    multipathFromJson (fieldsToJson (multipathFields flags nonce locator)) =
      .ok (.dict (multipathFields flags nonce locator)) := by
  -- The locator and the nonce are texts by now, and are put back in their places.
  have written : fieldsToJson (multipathFields flags nonce locator) =
      [("flags", .nat flags), ("nonce", .str (hexText nonce)),
        ("locator", .str (hexText locator))] := rfl
  have located : entry (fieldsToJson (multipathFields flags nonce locator)) "locator" =
      .ok (.str (hexText locator)) := rfl
  have chosen : entry (fieldsToJson (multipathFields flags nonce locator)) "nonce" =
      .ok (.str (hexText nonce)) := rfl
  rw [multipathFromJson, located, ok_bind, Value.fromHex, fromHex_hexText, ok_bind, chosen, ok_bind,
    nonceFromJson, fromHex_hexText, map_ok, ok_bind, written]
  rfl

/-- A field is read back when what stands under its key is. -/
theorem fieldFromJson_toJson {key : String} {value : Value}
    (recoverable : FieldRecoverable key value value.Recoverable)
    (inside : value.Recoverable → value.toJson.fromJson = .ok value) :
    fieldFromJson key value.toJson value.toJson.fromJson = .ok value := by
  cases value with
  | none | bool | int => exact inside trivial
  | str text =>
    -- A text is none of the keys of byte strings, so it stays a text.
    rw [Value.toJson, fieldFromJson, if_neg recoverable]
    exact inside trivial
  | bytes data =>
    -- A byte string is a text by now, and is read under its key.
    have listed : key ∈ bytesFields := recoverable
    rw [Value.toJson, fieldFromJson, if_pos listed, fromHex_hexText, map_ok]
  | list items => exact inside recoverable
  | dict fields =>
    rw [FieldRecoverable] at recoverable
    rw [Value.toJson] at inside ⊢
    rw [fieldFromJson, hasField_toJson]
    -- Only the value of a multipath parameter is looked into by its own rule.
    split at recoverable
    · rename_i special
      obtain ⟨flags, nonce, locator, rfl⟩ := recoverable
      rw [if_pos special, multipathFromJson_toJson]
    · rename_i plain
      rw [if_neg plain]
      exact inside recoverable

mutual

/-- A value whose byte strings stand under their own keys is read back from its JSON form. -/
theorem Value.fromJson_toJson : ∀ value : Value, value.Recoverable →
    value.toJson.fromJson = .ok value
  | .dict fields, recoverable => by
    rw [Value.toJson, Value.fromJson, fieldsFromJson_toJson fields recoverable, map_ok]
  | .list items, recoverable => by
    rw [Value.toJson, Value.fromJson, itemsFromJson_toJson items recoverable, map_ok]
  | .none, _ | .bool _, _ | .int _, _ | .str _, _ => rfl

/-- Fields of such values are read back one by one. -/
theorem fieldsFromJson_toJson : ∀ fields : Fields, FieldsRecoverable fields →
    fieldsFromJson (fieldsToJson fields) = .ok fields
  | [], _ => rfl
  | (key, value) :: fields, recoverable => by
    have head := fieldFromJson_toJson recoverable.1 (Value.fromJson_toJson value)
    rw [fieldsToJson, fieldsFromJson, head, ok_bind,
      fieldsFromJson_toJson fields recoverable.2, ok_bind, pure_ok]

/-- Items of such values are read back one by one. -/
theorem itemsFromJson_toJson : ∀ items : List Value, ItemsRecoverable items →
    itemsFromJson (itemsToJson items) = .ok items
  | [], _ => rfl
  | item :: items, recoverable => by
    rw [itemsToJson, itemsFromJson, Value.fromJson_toJson item recoverable.1, ok_bind,
      itemsFromJson_toJson items recoverable.2, ok_bind, pure_ok]

end

section Frames

/-- A parameter whose value is not plain bytes, which only a number with its bytes has. -/
def Param.Documented (param : Param) : Prop := ∀ data, param.content ≠ .value (.bytes data)

/-- A frame whose parameters, on every level of repetition, are in the documented form. -/
def Frame.Documented : Frame → Prop
  | .repeated frame _ => frame.Documented
  | .qxTransportParameters (.params params) => ∀ param ∈ params, param.Documented
  | _ => True

variable {key : String} {fields others : Fields}

section Kinds

/-- A number is read back under any key. -/
@[simp] theorem fieldRecoverable_nat (key : String) (number : Nat) :
    FieldRecoverable key (.nat number) (Value.nat number).Recoverable := trivial

/-- A flag is read back under any key. -/
@[simp] theorem fieldRecoverable_bool (key : String) (flag : Bool) :
    FieldRecoverable key (.bool flag) (Value.bool flag).Recoverable := trivial

/-- Bytes are read back under the keys of byte strings. -/
@[simp] theorem fieldRecoverable_bytes {data : Bytes} :
    FieldRecoverable key (.bytes data) (Value.bytes data).Recoverable ↔ key ∈ bytesFields := Iff.rfl

/-- A text is read back under all other keys. -/
@[simp] theorem fieldRecoverable_str {text : String} :
    FieldRecoverable key (.str text) (Value.str text).Recoverable ↔ key ∉ bytesFields := Iff.rfl

/-- A list is read back under any key when its items are. -/
@[simp] theorem fieldRecoverable_list {items : List Value} :
    FieldRecoverable key (.list items) (Value.list items).Recoverable ↔ ItemsRecoverable items :=
  Iff.rfl

end Kinds

/-- A property that every field has. -/
def EveryField (P : String → Value → Prop) (fields : Fields) : Prop :=
  ∀ field ∈ fields, P field.1 field.2

section EveryField

variable {P : String → Value → Prop}

/-- Every field of none has the property. -/
@[simp] theorem everyField_nil : EveryField P [] := by simp [EveryField]

/-- Every field has the property when the first one has, and the others have. -/
@[simp] theorem everyField_cons {value : Value} :
    EveryField P ((key, value) :: fields) ↔ P key value ∧ EveryField P fields :=
  List.forall_mem_cons

/-- Every field of two dicts has the property when every field of each has. -/
@[simp] theorem everyField_append :
    EveryField P (fields ++ others) ↔ EveryField P fields ∧ EveryField P others :=
  List.forall_mem_append

/-- A field that may be absent has the property when it is there. -/
@[simp] theorem everyField_optional {α : Type} {form : α → Value} {value : Option α} :
    EveryField P (optional key form value) ↔ ∀ present ∈ value, P key (form present) := by
  cases value <;> simp [optional]

end EveryField

/-- A dict is read back when each of its fields is. -/
@[simp] theorem fieldsRecoverable_iff : FieldsRecoverable fields ↔
    EveryField (fun key value => FieldRecoverable key value value.Recoverable) fields := by
  -- The induction is on the fields.
  induction fields with
  | nil => simp [FieldsRecoverable]
  | cons field fields ih => rw [FieldsRecoverable, ih, everyField_cons]

/-- A list is read back when each of its items is. -/
theorem itemsRecoverable_iff {items : List Value} :
    ItemsRecoverable items ↔ ∀ item ∈ items, item.Recoverable := by
  -- The induction is on the items.
  induction items with
  | nil => simp [ItemsRecoverable]
  | cons item items ih => rw [ItemsRecoverable, ih, List.forall_mem_cons]

/-- A value that is not plain bytes is read back under its key. -/
theorem TpValue.form_recoverable {value : TpValue} (other : ∀ data, value ≠ .bytes data) :
    FieldRecoverable "value" value.form value.form.Recoverable := by
  cases value with
  | none | varint => trivial
  | role who nonce =>
    -- A role has no locator, so its parts are read by their own keys.
    have absent : hasField (("role", .str who.text) :: optional "nonce" .nat nonce) "locator" =
        false := by
      cases nonce <;> rfl
    have parts : FieldsRecoverable (("role", .str who.text) :: optional "nonce" .nat nonce) := by
      simp [bytesFields]
    rw [form, FieldRecoverable, absent, if_neg (by simp)]
    exact parts
  -- The parts of a multipath value are recognized together.
  | multipath flags nonce locator => exact ⟨flags, nonce, locator, rfl⟩
  | lanes maxLanes key =>
    have parts : FieldsRecoverable [("max_lanes", .nat maxLanes), ("lane_key", .bytes key)] := by
      simp [bytesFields]
    exact parts
  | bytes data => exact absurd rfl (other data)

/-- The dict of a parameter in the documented form is read back. -/
theorem Param.Documented.recoverable {param : Param} (documented : param.Documented) :
    param.dict.Recoverable := by
  obtain ⟨id, content⟩ := param
  -- The number or name is under a key of its own.
  have named : FieldRecoverable "id" id.form id.form.Recoverable := by
    cases id <;> simp [TpId.form, bytesFields]
  cases content with
  | raw bytes => exact ⟨named, by simp [bytesFields]⟩
  | value value =>
    refine ⟨named, TpValue.form_recoverable ?_, trivial⟩
    -- Plain bytes are not the value of a documented parameter.
    rintro data rfl
    exact documented data rfl

/-- The dict of an entry is read back, being four numbers. -/
theorem AckEntry.dict_recoverable (entry : AckEntry) : entry.dict.Recoverable := by
  have parts : FieldsRecoverable [("pipe", .nat entry.pipe), ("lane", .nat entry.lane),
      ("position", .nat entry.position), ("delay", .nat entry.delay)] := by simp
  exact parts

/-- The fields of a join are read back. -/
theorem Join.parts_recoverable (join : Join) : FieldsRecoverable join.parts := by
  -- The direction is a number or a text.
  have directed : FieldRecoverable "direction" join.direction.form
      join.direction.form.Recoverable := by
    cases join.direction <;> simp [DirectionField.form, bytesFields]
  simp [parts, directed, bytesFields]

/-- The fields of a frame in the documented form are read back from their JSON form. -/
theorem Frame.Documented.parts {f : Frame} (documented : f.Documented) :
    FieldsRecoverable f.parts := by
  -- The induction is on the frame, which a repetition has inside it.
  induction f with
  | repeated frame count ih =>
    -- The dict inside has its type in front of its own fields.
    have inside : FieldsRecoverable (("type", .str frame.typeText) :: frame.parts) := by
      simpa [bytesFields] using ih documented
    exact ⟨trivial, inside, trivial⟩
  | qxTransportParameters block =>
    cases block with
    | params params =>
      refine ⟨itemsRecoverable_iff.mpr ?_, trivial⟩
      intro item member
      obtain ⟨param, listed, rfl⟩ := List.mem_map.mp member
      exact Param.Documented.recoverable (documented param listed)
    | raw bytes => simp [Frame.parts, bytesFields]
  | pipeJoin join => exact join.parts_recoverable
  | pipeAck entries =>
    refine ⟨itemsRecoverable_iff.mpr ?_, trivial⟩
    intro item member
    obtain ⟨entry, -, rfl⟩ := List.mem_map.mp member
    exact entry.dict_recoverable
  | pipeStatus pipe seq status priority =>
    have stated : FieldRecoverable "status" status.form status.form.Recoverable := by
      cases status <;> simp [StatusField.form, bytesFields]
    simp [Frame.parts, stated]
  -- All other frames have numbers, flags and byte strings under keys of byte strings.
  | _ => simp [Frame.parts, bytesFields]

/-- The dict of a frame in the documented form is read back from its JSON form. -/
theorem Frame.Documented.recoverable {f : Frame} (documented : f.Documented) :
    f.dict.Recoverable := by
  refine ⟨?_, documented.parts⟩
  -- The type is a text, under a key of no byte string.
  simp [bytesFields]

end Frames

end Zmux
