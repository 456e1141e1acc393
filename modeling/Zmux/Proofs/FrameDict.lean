import Zmux.Codec.FrameDict

/-! A frame is read back from its own dict. -/

namespace Zmux

open Wire

/-- A list of values is read back when each of its items is. -/
theorem items_map {α : Type} {read : Value → Option α} {form : α → Value}
    (back : ∀ item, read (form item) = some item) (items : List α) :
    Value.items read (.list (items.map form)) = some items := by
  induction items with
  | nil => rfl
  | cons item items ih =>
    -- The items are read one after the other.
    rw [Value.items] at ih ⊢
    rw [List.map_cons, List.mapM_cons, back, ih]
    rfl

section Names

/-- A parameter is found by the text of its name. -/
theorem tpNames_text (name : TpName) : memberOf tpNames TpName.text name.text = some name := by
  cases name <;> rfl

/-- A direction is found by its text. -/
theorem directions_text (direction : Direction) :
    memberOf directions Direction.text direction.text = some direction := by
  cases direction <;> rfl

/-- A status is found by its text. -/
theorem statuses_text (status : PipeStatus) :
    memberOf statuses PipeStatus.text status.text = some status := by
  cases status <;> rfl

end Names

/-- A direction is read from the form it is written in. -/
theorem DirectionField.ofValue_form (direction : DirectionField) :
    DirectionField.ofValue direction.form = some direction := by
  cases direction with
  | named direction => rw [form, ofValue, directions_text, Option.map_some]
  | bits value => rfl

/-- A status is read from the form it is written in. -/
theorem StatusField.ofValue_form (status : StatusField) :
    StatusField.ofValue status.form = some status := by
  cases status with
  | named status => rw [form, ofValue, statuses_text, Option.map_some]
  | number value => rfl

/-- A parameter is called in the form it is written in. -/
theorem TpId.ofValue_form (id : TpId) : TpId.ofValue id.form = some id := by
  cases id with
  | num id => rfl
  | name registered => rw [form, ofValue, tpNames_text, Option.map_some]

/-- The dicts of the three structured values have different keys. -/
theorem TpValue.ofValue_form (value : TpValue) : TpValue.ofValue value.form = some value := by
  cases value with
  | none => rfl
  | varint value => rfl
  | role who nonce =>
    -- A nonce is there for an undecided role only, but is read for any.
    cases who <;> cases nonce <;> rfl
  | multipath flags nonce locator => rfl
  | lanes maxLanes key => rfl
  | bytes value => rfl

/-- A parameter is read from its dict. -/
theorem Param.ofDict_dict (param : Param) : Param.ofDict param.dict = some param := by
  obtain ⟨id, content⟩ := param
  -- The number is read first, whatever is under the other key.
  have named : ∀ (key : String) (value : Value),
      field [("id", id.form), (key, value)] "id" TpId.ofValue = some id := by
    intro key value
    exact id.ofValue_form
  cases content with
  | raw bytes =>
    rw [dict, ofDict, named]
    rfl
  | value value =>
    rw [dict, ofDict, named]
    -- There are no bytes to prefer, so the value is read.
    have read : optionalField [("id", id.form), ("value", value.form)] "value" TpValue.ofValue =
        some (some value) := congrArg (Option.map some) value.ofValue_form
    simp only [Option.bind_eq_bind, Option.bind_some, read]
    rfl

/-- An entry is read from its dict. -/
theorem AckEntry.ofDict_dict (entry : AckEntry) : AckEntry.ofDict entry.dict = some entry := rfl

/-- A join is read from its fields. -/
theorem Join.ofFields_parts (join : Join) :
    Join.ofFields (("type", .str FrameName.pipeJoin.text) :: join.parts) = some join := by
  obtain ⟨locator, pipe, direction, carrierBound, standby, reservedFlags, fateGroup, priority,
    token⟩ := join
  have back := direction.ofValue_form
  rw [parts]
  -- All fields but the direction are read off their values.
  generalize direction.form = written at back ⊢
  have read : Join.ofFields (("type", .str FrameName.pipeJoin.text) ::
      ([("locator", .bytes locator), ("pipe", .nat pipe), ("direction", written)]
        ++ optional "carrier_bound" .bool carrierBound ++ optional "standby" .bool standby
        ++ optional "reserved_flags" .nat reservedFlags ++ [("fate_group", .nat fateGroup)]
        ++ optional "priority" .nat priority ++ [("token", .bytes token)])) =
      (DirectionField.ofValue written).bind fun direction =>
        some ⟨locator, pipe, direction, carrierBound, standby, reservedFlags, fateGroup, priority,
          token⟩ := by
    cases carrierBound <;> cases standby <;> cases reservedFlags <;> cases priority <;> rfl
  rw [read, back, Option.bind_some]

/-- A parameter block is read by the key that it is under. -/
theorem TpBlock.ofFields_params (params : List Param) (type : Value) :
    TpBlock.ofFields [("type", type), ("params", .list (params.map Param.dict))] =
      some (.params params) := by
  -- Each parameter is read from its dict, in order.
  have back := items_map Param.ofDict_dict params
  generalize Value.list (params.map Param.dict) = written at back ⊢
  have read : TpBlock.ofFields [("type", type), ("params", written)] =
      (Value.items Param.ofDict written).map .params := rfl
  rw [read, back, Option.map_some]

/-- The dict of a frame stands for that frame. -/
theorem Frame.ofDict_dict (f : Frame) : Frame.ofDict f.dict = some f := by
  -- The induction is on the frame, for a repeated frame holds another one.
  induction f with
  | raw bytes => rfl
  | repeated frame count ih =>
    -- The frame that is repeated is read first, and then it is the one under its key.
    have inner : Frame.ofDict (Frame.repeated frame count).dict =
        (Frame.ofDict frame.dict).bind fun frame => some (.repeated frame count) := rfl
    rw [inner, ih, Option.bind_some]
  | padding count => cases count <;> rfl
  | stream id off data fin hasOff hasLen =>
    cases off <;> cases data <;> cases fin <;> cases hasOff <;> cases hasLen <;> rfl
  | resetStream id code finalSize => rfl
  | resetStreamAt id code finalSize reliableSize => rfl
  | stopSending id code => rfl
  | maxData max => rfl
  | maxStreamData id max => rfl
  | maxStreams bidi max => rfl
  | dataBlocked limit => rfl
  | streamDataBlocked id limit => rfl
  | streamsBlocked bidi limit => rfl
  | connectionClose app code frameType reason =>
    cases app <;> cases frameType <;> cases reason <;> rfl
  | datagram data hasLen => cases data <;> cases hasLen <;> rfl
  | qxTransportParameters block =>
    cases block with
    | params params =>
      -- The block is read by itself, under the type of its frame.
      have read := TpBlock.ofFields_params params (.str FrameName.qxTransportParameters.text)
      exact congrArg (Option.map Frame.qxTransportParameters) read
    | raw bytes => rfl
  | qxPing response seq => cases response <;> rfl
  | goaway maxBidi maxUni code => rfl
  | priorityUpdate id seq urgency incremental => cases incremental <;> rfl
  | pipeJoin join => exact congrArg (Option.map Frame.pipeJoin) join.ofFields_parts
  | pipeAck entries =>
    exact congrArg (Option.map Frame.pipeAck) (items_map AckEntry.ofDict_dict entries)
  | pipeLane key pipe lane => rfl
  | pipePing => rfl
  | pipeAbandon pipe code => rfl
  | pipeStatus pipe seq status priority =>
    have back := status.ofValue_form
    have read : Frame.ofDict (Frame.pipeStatus pipe seq status priority).dict =
        (StatusField.ofValue status.form).bind fun status =>
          some (.pipeStatus pipe seq status priority) := by
      cases priority <;> rfl
    rw [read, back, Option.bind_some]

/-- Frames are read from their dicts, in order. -/
theorem framesOf_dicts (frames : List Frame) :
    framesOf (.list (frames.map Frame.dict)) = some frames :=
  items_map Frame.ofDict_dict frames

/-- The value that a list of records is given as. -/
def recordsForm (records : List (List Frame)) : Value :=
  .list (records.map fun frames => .list (frames.map Frame.dict))

/-- Records are read from their form. -/
theorem recordsOf_form (records : List (List Frame)) :
    recordsOf (recordsForm records) = some records :=
  items_map framesOf_dicts records

/-- The form of records is encoded as the records are. -/
theorem recordBytesDict_form (records : List (List Frame)) :
    recordBytesDict (recordsForm records) = recordBytes records := by
  rw [recordBytesDict, recordsOf_form, encodeRead]

/-- The dict of a frame is encoded as the frame is. -/
theorem encodeFrameDict_dict (f : Frame) : encodeFrameDict f.dict = encodeFrame f := by
  rw [encodeFrameDict, f.ofDict_dict, encodeRead]

end Zmux
