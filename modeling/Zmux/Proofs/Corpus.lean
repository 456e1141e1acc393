import Zmux.Codec.Corpus
import Zmux.Proofs.FrameFaults
import Zmux.Proofs.Gates
import Zmux.Proofs.Messages
import Zmux.Proofs.Normalisation
import Zmux.Proofs.RecordStreams
import Zmux.Proofs.TraceFile
import Zmux.Wire.Tables

/-! The check of the wire corpus accepts what the builder writes, and tells the kinds of entries apart. -/

namespace Zmux

open Wire

section Same

variable {key : String} {value : Value} {fields others : Fields}

/-- No two fields of a dict have the same key. -/
def DistinctKeys (fields : Fields) : Prop := (fields.map Prod.fst).Nodup

mutual

/-- Every dict inside a value has each of its keys once. -/
def Value.Keyed : Value → Prop
  | .dict fields => DistinctKeys fields ∧ FieldsKeyed fields
  | .list items => ItemsKeyed items
  | .none | .bool _ | .int _ | .str _ | .bytes _ => True

/-- Every dict inside the values of fields has each of its keys once. -/
def FieldsKeyed : Fields → Prop
  | [] => True
  | (_, value) :: fields => value.Keyed ∧ FieldsKeyed fields

/-- Every dict inside the items of a list has each of its keys once. -/
def ItemsKeyed : List Value → Prop
  | [] => True
  | item :: items => item.Keyed ∧ ItemsKeyed items

end

/-- A field is found under its key where no other has the key. -/
theorem DistinctKeys.lookup (distinct : DistinctKeys fields) (listed : (key, value) ∈ fields) :
    fields.lookup key = some value := lookup_of_nodup distinct listed

/-- Writing a dict as JSON keeps the keys and their order. -/
theorem keys_toJson (fields : Fields) :
    (fieldsToJson fields).map Prod.fst = fields.map Prod.fst := by
  -- The induction is on the fields, whose keys stay as they are.
  induction fields with
  | nil => rfl
  | cons field fields ih => rw [fieldsToJson, List.map_cons, List.map_cons, ih]

/-- Fields are the same as in a dict that has each of them. -/
theorem fieldsSame_iff : fieldsSame fields others = true ↔
    ∀ field ∈ fields, ∃ other, others.lookup field.1 = some other ∧ field.2.same other = true := by
  -- The induction is on the fields, each of which is looked up by itself.
  induction fields with
  | nil => simp [fieldsSame]
  | cons field fields ih =>
    obtain ⟨key, value⟩ := field
    rw [fieldsSame, Bool.and_eq_true, ih, List.forall_mem_cons]
    cases others.lookup key <;> simp

mutual

/-- A value whose dicts have each key once is equal to itself. -/
theorem Value.same_toJson : ∀ value : Value, value.Keyed →
    value.toJson.same value.toJson = true
  | .dict fields, keyed => by
    -- Each key is found at the one field that has it.
    have kept : DistinctKeys (fieldsToJson fields) := by
      rw [DistinctKeys, keys_toJson]
      exact keyed.1
    rw [Value.toJson, Value.same, beq_self_eq_true, Bool.true_and, fieldsSame_iff]
    intro field listed
    exact ⟨field.2, kept.lookup listed, fieldsSame_toJson fields keyed.2 field listed⟩
  | .list items, keyed => by
    rw [Value.toJson, Value.same]
    exact itemsSame_toJson items keyed
  | .none, _ => rfl
  | .bool flag, _ => by simp [Value.toJson, Value.same]
  | .int number, _ => by simp [Value.toJson, Value.same]
  | .str text, _ => by simp [Value.toJson, Value.same]
  | .bytes data, _ => by simp [Value.toJson, Value.same]

/-- Fields whose values have each key once are equal to themselves. -/
theorem fieldsSame_toJson : ∀ fields : Fields, FieldsKeyed fields →
    ∀ field ∈ fieldsToJson fields, field.2.same field.2 = true
  | [], _, _, listed => by simp [fieldsToJson] at listed
  | (key, value) :: fields, keyed, field, listed => by
    rw [fieldsToJson, List.mem_cons] at listed
    -- A field is the first one, or one behind it.
    rcases listed with rfl | listed
    · exact value.same_toJson keyed.1
    · exact fieldsSame_toJson fields keyed.2 field listed

/-- Items whose dicts have each key once are equal to themselves. -/
theorem itemsSame_toJson : ∀ items : List Value, ItemsKeyed items →
    itemsSame (itemsToJson items) (itemsToJson items) = true
  | [], _ => rfl
  | item :: items, keyed => by
    rw [itemsToJson, itemsSame, item.same_toJson keyed.1, itemsSame_toJson items keyed.2]
    rfl

end

end Same

section Keyed

variable {key : String} {value : Value} {fields others : Fields}

/-- A dict without fields has no key twice. -/
@[simp] theorem distinctKeys_nil : DistinctKeys [] := List.nodup_nil

/-- Keys are distinct when the first is none of the others, and those are distinct. -/
@[simp] theorem distinctKeys_cons : DistinctKeys ((key, value) :: fields) ↔
    EveryField (fun other _ => key ≠ other) fields ∧ DistinctKeys fields := by
  rw [DistinctKeys, List.map_cons, List.nodup_cons, List.mem_map]
  refine and_congr_left' ?_
  -- The two sides compare the keys in different directions.
  constructor
  · intro absent field listed same
    exact absent ⟨field, listed, same.symm⟩
  · rintro other ⟨field, listed, same⟩
    exact other field listed same.symm

/-- Two dicts have distinct keys together when each has, and no key is in both. -/
@[simp] theorem distinctKeys_append : DistinctKeys (fields ++ others) ↔
    DistinctKeys fields ∧ DistinctKeys others ∧
      EveryField (fun key _ => EveryField (fun other _ => key ≠ other) others) fields := by
  -- The induction is on the front fields.
  induction fields with
  | nil => simp
  | cons field fields ih =>
    obtain ⟨key, value⟩ := field
    rw [List.cons_append, distinctKeys_cons, everyField_append, ih, distinctKeys_cons,
      everyField_cons]
    tauto

/-- A field that may be left out comes once at most. -/
@[simp] theorem distinctKeys_optional {α : Type} {form : α → Value} {value : Option α} :
    DistinctKeys (optional key form value) := by
  cases value <;> simp [optional]

/-- Fields are keyed when every value is. -/
@[simp] theorem fieldsKeyed_iff :
    FieldsKeyed fields ↔ EveryField (fun _ value => value.Keyed) fields := by
  -- The induction is on the fields.
  induction fields with
  | nil => simp [FieldsKeyed]
  | cons field fields ih => rw [FieldsKeyed, ih, everyField_cons]

/-- A dict is keyed when its keys are distinct, and its values are keyed. -/
@[simp] theorem keyed_dict : (Value.dict fields).Keyed ↔
    DistinctKeys fields ∧ EveryField (fun _ value => value.Keyed) fields := by
  rw [Value.Keyed, fieldsKeyed_iff]

/-- A list is keyed when its items are. -/
@[simp] theorem keyed_list {items : List Value} :
    (Value.list items).Keyed ↔ ∀ item ∈ items, item.Keyed := by
  rw [Value.Keyed]
  -- The induction is on the items.
  induction items with
  | nil => simp [ItemsKeyed]
  | cons item items ih => rw [ItemsKeyed, ih, List.forall_mem_cons]

/-- A number has no keys. -/
@[simp] theorem keyed_nat (number : Nat) : (Value.nat number).Keyed := trivial

/-- A flag has no keys. -/
@[simp] theorem keyed_bool (flag : Bool) : (Value.bool flag).Keyed := trivial

/-- A text has no keys. -/
@[simp] theorem keyed_str (text : String) : (Value.str text).Keyed := trivial

/-- Bytes have no keys. -/
@[simp] theorem keyed_bytes (data : Bytes) : (Value.bytes data).Keyed := trivial

/-- The dict of a parameter has each key once. -/
theorem Param.dict_keyed (param : Param) : param.dict.Keyed := by
  obtain ⟨id, content⟩ := param
  -- Neither its number or name has keys, nor its bytes; a value has its own.
  have named : id.form.Keyed := by cases id <;> trivial
  cases content with
  | raw bytes => simp [dict, named]
  | value value =>
    have inside : value.form.Keyed := by cases value <;> simp [TpValue.form, Value.Keyed]
    simp [dict, named, inside]

/-- The dict of a frame has each key once, on every level of repetition. -/
theorem Frame.dict_keyed (f : Frame) : f.dict.Keyed := by
  rw [Frame.dict, keyed_dict]
  -- The induction is on the frame, which a repetition has inside it.
  induction f with
  | repeated frame count ih => simpa [Frame.parts] using ih
  | qxTransportParameters block =>
    cases block with
    | params params => simp [Frame.parts, Param.dict_keyed]
    | raw bytes => simp [Frame.parts]
  | pipeJoin join =>
    have directed : join.direction.form.Keyed := by cases join.direction <;> trivial
    simp [Frame.parts, Join.parts, directed]
  | pipeAck entries => simp [Frame.parts, AckEntry.dict]
  | pipeStatus pipe seq status priority =>
    have stated : status.form.Keyed := by cases status <;> trivial
    simp [Frame.parts, stated]
  | _ => simp [Frame.parts]

end Keyed

section Frames

variable {enabled : Gates} {limit : Option Nat} {f : Frame} {window : Bytes} {cid : String}
  {frame : Value}

/-- A frame that takes all the bytes is encoded in its shortest spelling, which decodes alike. -/
theorem decodeFrame_again
    (decoded : decodeFrame window 0 window.length enabled limit = .ok (f, window.length)) :
    ∃ shorter, encodeFrame f = .ok shorter ∧
      decodeFrame shorter 0 shorter.length enabled limit = .ok (f, shorter.length) ∧
      (shorter.length < window.length ↔ shorter ≠ window) ∧ f.Decoded := by
  obtain ⟨left, placed, whole⟩ := decodeFrame_eq_ok.mp decoded
  -- All bytes are taken, so nothing is left.
  have none : left = [] := by
    have bound := placed.length_lt
    rw [← List.length_eq_zero_iff]
    omega
  subst none
  obtain ⟨widths, reads⟩ := placed.spelled
  -- The frame has the same place in its shortest spelling.
  have short := placed.shorten (fun zero => zero) fun ended => ended
  rw [List.append_nil] at short
  exact ⟨_, encodeFrame_eq_ok placed.decoded (reads_short reads).1,
    decodeFrame_eq_ok.mpr ⟨[], short, rfl⟩, reads_longer_iff reads, placed.decoded⟩

/-- Reports are left as they are where nothing is refused. -/
@[simp] theorem reportRefusal_ok {reports : List String} :
    reportRefusal cid (.ok reports) = .ok reports := rfl

/-- A refusal is reported, so a check without reports did not meet one. -/
theorem reportRefusal_eq_nil {reports : Except Failure (List String)} :
    reportRefusal cid reports = .ok [] ↔ reports = .ok [] := by
  unfold reportRefusal
  split
  · simp
  · rfl

/-- A description is right when it is read as a frame that is encoded to the bytes. -/
theorem checkDescription_eq_nil {b : Bytes} {report : String} :
    checkDescription frame b report = .ok [] ↔ (frame.fromJson >>= encodeFrameDict) = .ok b := by
  cases read : frame.fromJson with
  | error fault => simp [checkDescription, read]
  | ok described =>
    -- The description is read, and what it is encoded to is compared.
    cases encoded : encodeFrameDict described with
    | error fault => simp [checkDescription, read, encoded]
    | ok bytes => simp [checkDescription, read, encoded]

/-- The JSON form of a decoded frame describes what the frame is encoded to. -/
theorem Frame.Decoded.described (decoded : f.Decoded) :
    (f.dict.toJson.fromJson >>= encodeFrameDict) = encodeFrame f := by
  rw [Value.fromJson_toJson _ decoded.documented.recoverable, ok_bind, encodeFrameDict_dict]

/-- An entry of the first kind holds the shortest spelling of the frame, and describes it. -/
theorem checkFrame_minimal :
    checkFrame cid window enabled limit f frame false = .ok [] ↔
      encodeFrame f = .ok window ∧ (frame.fromJson >>= encodeFrameDict) = .ok window := by
  rw [checkFrame]
  cases encoded : encodeFrame f with
  | error fault => simp
  | ok shorter =>
    -- The bytes are compared with those that the frame is encoded to.
    simp only [ok_bind, Bool.false_eq_true, if_false, bind_eq_ok, pure_ok, Except.ok.injEq,
      List.append_eq_nil_iff, reportIf_eq_nil, not_not]
    constructor
    · rintro ⟨second, checked, same, rfl⟩
      exact ⟨same, bind_eq_ok.mp (checkDescription_eq_nil.mp checked)⟩
    · rintro ⟨same, described⟩
      exact ⟨[], checkDescription_eq_nil.mpr (bind_eq_ok.mpr described), same, rfl⟩

/-- An entry of the second kind holds any longer spelling of the frame that it describes. -/
theorem checkFrame_nonMinimal
    (decoded : decodeFrame window 0 window.length enabled limit = .ok (f, window.length)) :
    checkFrame cid window enabled limit f frame true = .ok [] ↔
      encodeFrame f ≠ .ok window ∧ f.dict.toJson.same frame = true ∧
        (frame.fromJson >>= encodeFrameDict) = encodeFrame f := by
  obtain ⟨shorter, encoded, again, fewer, -⟩ := decodeFrame_again decoded
  have itself := Value.same_toJson f.dict f.dict_keyed
  -- The bytes are longer exactly when they are others than those of the frame.
  have other : encodeFrame f ≠ .ok window ↔ ¬ shorter.length ≥ window.length := by
    rw [encoded, ne_eq, Except.ok.injEq, Nat.not_le]
    exact fewer.symm
  simp only [checkFrame, encoded, again, ok_bind, itself, not_true_eq_false, or_false, if_true]
  rw [← encoded, other]
  -- The first report is about the length, and the second about the description.
  by_cases long : shorter.length ≥ window.length
  · rw [if_pos long, pure_ok, ok_bind]
    split <;> simp [long, bind_eq_ok]
  · rw [if_neg long, reportIf]
    by_cases told : f.dict.toJson.same frame = true
    · have described := @checkDescription_eq_nil frame shorter
        ("corpus: " ++ cid ++ ": JSON does not match the decoded frame")
      simp [long, told, described, encoded, bind_eq_ok]
    · simp [long, told]

/-- An entry is right when its bytes are one frame, and the frame and its description agree. -/
theorem checkValid_frame {names : List TpName} {nonMinimal : Bool} {hex : String} :
    checkValid ⟨cid, names, limit, .frame hex frame nonMinimal⟩ = .ok [] ↔
      ∃ b f, fromHex hex = .ok b ∧
        decodeFrame b 0 b.length (some names) limit = .ok (f, b.length) ∧
        checkFrame cid b (some names) limit f frame nonMinimal = .ok [] := by
  simp only [checkValid, reportRefusal_eq_nil, bind_eq_ok]
  constructor
  · rintro ⟨b, read, ⟨f, stop⟩, decoded, checked⟩
    -- The frame must take all the bytes.
    by_cases whole : stop = b.length
    · subst whole
      simp only [ne_eq, not_true_eq_false, if_false] at checked
      exact ⟨b, f, read, decoded, checked⟩
    · simp [whole] at checked
  · rintro ⟨b, f, read, decoded, checked⟩
    refine ⟨b, read, (f, b.length), decoded, ?_⟩
    simpa using checked

/-- Every error of the protocol has a name in the registry. -/
theorem text_listed (code : TransportError) :
    code.text ∈ transportErrors.map fun row => row.1.text := by
  cases code <;> simp [transportErrors]

/-- An entry is right when its bytes are refused with the error that it names. -/
theorem checkInvalid_eq_nil {e : InvalidEntry} : checkInvalid e = .ok [] ↔
    ∃ code reason, e.content.decode (some e.gates) e.limits = .error (.decodeError code reason) ∧
      e.error = code.text := by
  rw [checkInvalid]
  cases decoded : e.content.decode (some e.gates) e.limits with
  | ok answer => simp [reportIf]
  | error fault =>
    cases fault with
    | decodeError code reason =>
      -- The error is compared by its name, which is in the registry.
      simp only [ok_bind, pure_ok, Except.ok.injEq, List.append_eq_nil_iff, reportIf_eq_nil,
        not_not, Except.error.injEq, Failure.decodeError.injEq]
      constructor
      · rintro ⟨same, -⟩
        exact ⟨code, reason, ⟨rfl, rfl⟩, same.symm⟩
      · rintro ⟨_, _, ⟨rfl, rfl⟩, same⟩
        refine ⟨same.symm, ?_⟩
        rw [same]
        exact text_listed code
    | _ => simp

/--
The decoder decides of which kind of entry some bytes are, and they are of one kind at most.

Bytes that are one frame are valid with its description.
They are minimal bytes when the frame is encoded to them, and longer ones otherwise.
With no description are they valid in the other kind, and bytes that are not one frame are valid in neither.
Bytes that are refused are invalid with the name of their error and with no other.
The check of an invalid entry always comes to an end.
-/
theorem corpus_kinds (cid : String) (names : List TpName) (limit : Option Nat) (b : Bytes) :
    (∀ f, decodeFrame b 0 b.length (some names) limit = .ok (f, b.length) →
      (∀ nonMinimal, checkValid ⟨cid, names, limit, .frame (hexText b) f.dict.toJson nonMinimal⟩ =
        .ok [] ↔ (nonMinimal = true ↔ encodeFrame f ≠ .ok b)) ∧
      ∀ frame nonMinimal, checkValid ⟨cid, names, limit, .frame (hexText b) frame nonMinimal⟩ =
        .ok [] → (nonMinimal = true ↔ encodeFrame f ≠ .ok b)) ∧
    (∀ frame nonMinimal, checkValid ⟨cid, names, limit, .frame (hexText b) frame nonMinimal⟩ =
      .ok [] → ∃ f, decodeFrame b 0 b.length (some names) limit = .ok (f, b.length)) ∧
    (∀ error, checkInvalid ⟨cid, names, limit, error, .frame (hexText b)⟩ = .ok [] ↔
      ∃ code reason, decodeFrame b 0 b.length (some names) limit =
        .error (.decodeError code reason) ∧ error = code.text) ∧
    ∀ error, ∃ reports, checkInvalid ⟨cid, names, limit, error, .frame (hexText b)⟩ =
      .ok reports := by
  -- The check of an invalid entry decodes the same bytes.
  have refused : InvalidContent.decode (some names) limit (.frame (hexText b)) =
      (decodeFrame b 0 b.length (some names) limit).map fun _ => () := by
    rw [InvalidContent.decode, fromHex_hexText, ok_bind]
    cases decodeFrame b 0 b.length (some names) limit <;> rfl
  refine ⟨?_, ?_, ?_, ?_⟩
  · intro f decoded
    -- The frame is the only one that the bytes decode to.
    have entry : ∀ frame nonMinimal,
        checkValid ⟨cid, names, limit, .frame (hexText b) frame nonMinimal⟩ = .ok [] ↔
          checkFrame cid b (some names) limit f frame nonMinimal = .ok [] := by
      intro frame nonMinimal
      simp [checkValid_frame, fromHex_hexText, decoded]
    have itself := Value.same_toJson f.dict f.dict_keyed
    obtain ⟨shorter, encoded, -, -, known⟩ := decodeFrame_again decoded
    constructor
    · intro nonMinimal
      rw [entry]
      cases nonMinimal with
      | false => rw [checkFrame_minimal, known.described]; simp
      -- The description is that of the frame itself.
      | true => rw [checkFrame_nonMinimal decoded, known.described]; simp [itself]
    · intro frame nonMinimal passed
      rw [entry] at passed
      cases nonMinimal with
      | false => simp [(checkFrame_minimal.mp passed).1]
      | true => simp [((checkFrame_nonMinimal decoded).mp passed).1]
  · intro frame nonMinimal passed
    obtain ⟨bytes, f, read, decoded, -⟩ := checkValid_frame.mp passed
    rw [fromHex_hexText, Except.ok.injEq] at read
    subst read
    exact ⟨f, decoded⟩
  · intro error
    rw [checkInvalid_eq_nil, refused]
    simp only [map_eq_error]
  · intro error
    rw [checkInvalid, refused]
    cases decoded : decodeFrame b 0 b.length (some names) limit with
    | ok answer => exact ⟨_, rfl⟩
    | error fault =>
      -- The decoder raises errors of the protocol only.
      obtain ⟨code, reason, rfl, -⟩ := (decodeFrame_faults b (some names) limit fault decoded).isProtocol
      exact ⟨_, rfl⟩

end Frames

section Disjoint

variable {enabled others : Gates} {limit more : Option Nat} {window : Bytes} {most : Nat}

/-- A limit of datagrams that is no lower than another. -/
def Above.Looser (limit more : Option Nat) : Prop := ∀ most ∈ more, ∃ least ∈ limit, least ≤ most

/-- What is let through is let through by wider gates and under a looser limit. -/
theorem Permitted.wider {entry : Frame × Nat} (permitted : Permitted enabled limit entry)
    (wide : Wider enabled others) (loose : Above.Looser limit more) :
    Permitted others more entry := by
  refine ⟨permitted.1.wider wide, ?_⟩
  rintro datagram ⟨most, within, large⟩
  -- A datagram beyond the looser limit is beyond the other one.
  obtain ⟨least, held, below⟩ := loose most within
  exact permitted.2 datagram ⟨least, held, by omega⟩

/-- A frame that decodes without gates decodes under those that let it through. -/
theorem decodeFrame_permitted {f : Frame} {span : Nat}
    (decoded : decodeFrame window 0 window.length = .ok (f, span))
    (permitted : Permitted enabled limit (f, span)) :
    decodeFrame window 0 window.length enabled limit = .ok (f, span) := by
  rw [decodeFrame_letThrough decoded, (letThrough_eq_ok decoded).mpr ⟨permitted, rfl⟩, map_ok]

/-- A message is decoded when it is within the limit, and decodes as a payload. -/
theorem decodeMessage_eq_ok {msg : Bytes} {fs : List Frame} :
    decodeMessage msg most enabled = .ok fs ↔
      (msg.length ≠ 0 → msg.length ≤ most) ∧ decodeFrames msg enabled = .ok fs := by
  unfold decodeMessage
  split
  · -- An empty message has no frames.
    rename_i empty
    rw [List.length_eq_zero_iff] at empty
    subst empty
    simp
  · rename_i some
    simp [bind_eq_ok, raiseIf_eq_ok, some]

/-- A record entry is right when its bytes are one record, which is encoded to them again. -/
theorem checkValid_record {cid : String} {names : List TpName} {hex : String} {record : Value} :
    checkValid ⟨cid, names, limit, .record hex record⟩ = .ok [] ↔ ∃ b frames,
      fromHex hex = .ok b ∧ decodeRecord b 0 Limits.zmuxMaxRecordSize (some names) =
        .ok (some frames, b.length) ∧ encodeRecord frames = .ok b := by
  simp only [checkValid, bind_eq_ok, reportRefusal_eq_nil]
  constructor
  · rintro ⟨b, read, ⟨decoded, stop⟩, found, checked⟩
    cases decoded with
    | none => simp at checked
    | some frames =>
      -- The record must take all the bytes.
      by_cases whole : stop = b.length
      · subst whole
        simp only [ne_eq, not_true_eq_false, if_false, bind_eq_ok, pure_ok, Except.ok.injEq,
          reportIf_eq_nil, not_not] at checked
        obtain ⟨again, encoded, rfl⟩ := checked
        exact ⟨_, frames, read, found, encoded⟩
      · simp [whole] at checked
  · rintro ⟨b, frames, read, found, encoded⟩
    refine ⟨b, read, _, found, ?_⟩
    simp [encoded]

/-- Messages are right when each of them is decoded, encoded again, and counted. -/
theorem checkMessages_cons {cid : String} {m : String} {pos : Nat} {listed : List (String × Nat)} :
    checkMessages cid enabled ((m, pos) :: listed) = .ok [] ↔
      (∃ mb frames, fromHex m = .ok mb ∧
        decodeMessage mb Limits.zmuxMaxRecordSize enabled = .ok frames ∧
        encodeFrames frames = .ok mb ∧ messagePosition mb = .ok pos) ∧
      checkMessages cid enabled listed = .ok [] := by
  simp only [checkMessages, reportRefusal_eq_nil, bind_eq_ok, pure_ok, Except.ok.injEq,
    List.append_eq_nil_iff, reportIf_eq_nil, ne_eq, not_not]
  constructor
  · rintro ⟨mb, read, frames, decoded, _, encoded, _, counted, _, checked, ⟨rfl, rfl⟩, rfl⟩
    exact ⟨⟨_, frames, read, decoded, encoded, counted⟩, checked⟩
  · rintro ⟨⟨mb, frames, read, decoded, encoded, counted⟩, checked⟩
    exact ⟨mb, read, frames, decoded, mb, encoded, pos, counted, [], checked, ⟨rfl, rfl⟩, rfl⟩

/-- A corpus is right when all of its entries are. -/
theorem checkCorpus_eq_nil {c : Corpus} : checkCorpus c = .ok [] ↔
    (∀ e ∈ c.valid, checkValid e = .ok []) ∧ ∀ e ∈ c.invalid, checkInvalid e = .ok [] := by
  have split := @Reports.clean_both _ _ (Reports.each checkValid c.valid)
    (Reports.each checkInvalid c.invalid)
  rwa [Reports.clean_each, Reports.clean_each] at split

end Disjoint

section Builder

variable {limit : Option Nat} {f : Frame} {fs : List Frame} {window : Bytes} {cid : String}

/-- Every gate of the registry is among all gates, so all of them let everything through. -/
theorem Frame.open_allGates (f : Frame) : f.Open (some allGates) := by
  rintro gated names ⟨⟩
  rw [Frame.gates] at gated ⊢
  cases found : frameByType f.code with
  | none => simp [found] at gated
  | some row =>
    simp only [found] at gated ⊢
    -- A frame that has a gate has one of those of its row.
    obtain ⟨gate, listed⟩ := List.exists_mem_of_ne_nil _ gated
    refine ⟨gate, listed, ?_⟩
    rw [allGates, List.mem_eraseDups, List.mem_flatMap]
    exact ⟨row, List.mem_of_find?_eq_some found, listed⟩

/-- Frames that decode without gates decode under all gates. -/
theorem decodeFrames_allGates (decoded : decodeFrames window = .ok fs) :
    decodeFrames window (some allGates) = .ok fs := by
  obtain ⟨spans, found, rfl, permitted⟩ := decodeFrames_permitted.mp decoded
  refine decodeFrames_permitted.mpr ⟨spans, found, rfl, ?_⟩
  intro entry member
  exact ⟨entry.1.open_allGates, (permitted entry member).2⟩

/-- Padding in front of frames is encoded as so many zeros. -/
theorem encodeFrames_pushPadding (count : Nat) (fs : List Frame) :
    encodeFrames (pushPadding count fs) =
      (encodeFrames fs).map fun bytes => List.replicate count 0 ++ bytes := by
  unfold pushPadding
  split
  · rename_i zero
    subst zero
    cases encodeFrames fs <;> rfl
  · split
    · rename_i more others
      -- The two runs are one run of as many bytes.
      simp only [encodeFrames, encodeFrame, ok_bind, Option.getD_some]
      cases encodeFrames others with
      | error fault => rfl
      | ok bytes => simp only [ok_bind, map_ok, pure_ok, List.replicate_add, List.append_assoc]
    · simp only [encodeFrames, encodeFrame, ok_bind, Option.getD_some]
      cases encodeFrames fs <;> rfl

/-- Frames in canonical form are encoded as the frames they stand for. -/
theorem encodeFrames_ofCanonical (formed : ∀ f ∈ fs, f.WellFormed) :
    encodeFrames (canonical fs) = encodeFrames fs := by
  -- The induction is on the frames, the first of which may be padding that is merged.
  induction fs with
  | nil => rfl
  | cons f fs ih =>
    rw [List.forall_mem_cons] at formed
    have rest := ih formed.2
    rw [canonical] at rest ⊢
    rw [List.map_cons]
    cases named : f.explicit.name with
    | some name => rw [mergePadding_named named, encodeFrames, rest, encodeFrame_explicit formed.1,
        encodeFrames]
    | none =>
      -- Only padding has no name, among frames that are well-formed.
      rw [f.explicit_name] at named
      cases f with
      | raw | repeated => exact formed.1.elim
      | padding count =>
        rw [Frame.explicit, mergePadding, encodeFrames_pushPadding, rest]
        simp only [encodeFrames, encodeFrame, ok_bind, Option.getD_some]
        cases encodeFrames fs <;> rfl
      | _ => cases named

/-- A well-formed frame is decoded alone from its own encoding. -/
theorem Frame.WellFormed.alone (formed : f.WellFormed) (other : f.explicit ≠ .padding (some 0)) :
    ∃ bytes, encodeFrame f = .ok bytes ∧
      decodeFrame bytes 0 bytes.length = .ok (f.explicit, bytes.length) := by
  obtain ⟨decoded, fits⟩ := formed.decoded other
  -- The frame with its defaults explicit is encoded to the same bytes.
  have encoded := encodeFrame_eq_ok decoded fits
  rw [encodeFrame_explicit formed] at encoded
  refine ⟨_, encoded, decodeFrame_eq_ok.mpr ⟨[], ⟨decoded, ?_, by simp, fun _ => rfl,
    f.explicit.allowed_all, by simp⟩, rfl⟩⟩
  simpa using Layout.starts_short fits []

/-- The parameters of a well-formed frame are in the documented form. -/
theorem Frame.WellFormed.documented (formed : f.WellFormed) : f.Documented := by
  cases f with
  | raw | repeated => exact formed.elim
  | qxTransportParameters block =>
    cases block with
    | params params =>
      intro param listed
      exact ((WellFormedTps.each formed) param listed).known.documented
    | raw => exact formed.elim
  | _ => trivial

/-- The frames of a record or a message that may be sent, of at most so many bytes together. -/
structure Fitting (most : Nat) (fs : List Frame) : Prop where
  formed : ∀ f ∈ fs, f.WellFormed
  last : ∀ f ∈ fs.dropLast, ¬ f.RunsToEnd
  sized : ∀ body, encodeFrames fs = .ok body → body.length ≤ most

/-- The frames of a message are decoded under all gates, and encoded to the message again. -/
theorem Fitting.message {most : Nat} (fitting : Fitting most fs) :
    ∃ body, encodeFrames fs = .ok body ∧
      decodeMessage body most (some allGates) = .ok (canonical fs) ∧
      encodeFrames (canonical fs) = .ok body := by
  obtain ⟨body, encoded, placed⟩ := encodeFrames_canonical fitting.formed fitting.last
  -- The frames are decoded in canonical form, which is encoded to the same bytes.
  have decoded := decodeFrames_allGates (decodeFrames_eq_ok.mpr placed)
  exact ⟨body, encoded, decodeMessage_eq_ok.mpr ⟨fun _ => fitting.sized body encoded, decoded⟩,
    by rw [encodeFrames_ofCanonical fitting.formed, encoded]⟩

/-- The frames of a record are decoded under all gates, and encoded to the record again. -/
theorem Sendable.record {most : Nat} (sendable : Sendable most fs none) :
    ∃ piece, encodeRecord fs = .ok piece ∧
      decodeRecord piece 0 most (some allGates) = .ok (some (canonical fs), piece.length) ∧
      encodeRecord (canonical fs) = .ok piece := by
  obtain ⟨body, encoded, placed⟩ := encodeFrames_canonical sendable.formed sendable.last
  have legal : VarintLegal body.length (varintShortest body.length) := sendable.legal body encoded
  obtain ⟨positive, small⟩ := sendable.sized body encoded
  have size := encodeVarint_shortest (legal_shortest_iff.mp legal)
  -- The body is decoded in canonical form, within the size that is written in front.
  have decoded := decodeFrames_allGates (decodeFrames_eq_ok.mpr placed)
  refine ⟨varintForm body.length (varintShortest body.length) ++ body, ?_, ?_, ?_⟩
  · simp only [encodeRecord, encoded, size, ok_bind, pure_ok]
  · rw [decodeRecord_some_iff]
    exact ⟨_, body, [], legal, by simp, positive, small,
      by rw [List.length_append, varintForm_length legal], decoded⟩
  · simp only [encodeRecord, encodeFrames_ofCanonical sendable.formed, encoded, size, ok_bind,
      pure_ok]

/-- A message that is given as frames may be sent, and one that is given as bytes is as its frames are encoded. -/
def MessageForm.Sound : MessageForm → Prop
  | frames given => ∃ fs, given = .list (fs.map Frame.dict) ∧ Fitting Limits.zmuxMaxRecordSize fs
  | bytes data => ∃ fs, decodeMessage data Limits.zmuxMaxRecordSize (some allGates) = .ok fs ∧
    encodeFrames fs = .ok data

/-- What the calls of the builder are given: frames that may be sent, and bytes that are refused. -/
def CorpusCall.Sound : CorpusCall → Prop
  | ok _ frame gates limits => ∃ f : Frame, frame = f.dict ∧ f.WellFormed ∧
    f.explicit ≠ .padding (some 0) ∧ ∀ b, encodeFrame f = .ok b →
      Permitted (some (gatesOr gates)) limits (f.explicit, b.length)
  | okNonMinimal _ bytes frame => ∃ f : Frame, frame = f.dict ∧
    decodeFrame bytes 0 bytes.length (some allGates) = .ok (f, bytes.length) ∧
    encodeFrame f ≠ .ok bytes
  | okrec _ frames => ∃ fs, frames = .list (fs.map Frame.dict) ∧
    Sendable Limits.zmuxMaxRecordSize fs none
  | okmsg _ messages => ∀ message ∈ messages, message.Sound
  | bad _ bytes error kind gates limits => ∃ code reason, error = code.text ∧
    match kind with
    | .frame => decodeFrame bytes 0 bytes.length (some (gates.getD allGates)) limits =
      .error (.decodeError code reason)
    | .record => decodeStream bytes Limits.zmuxMaxRecordSize (some (gates.getD allGates)) =
      .error (.decodeError code reason)
  | badmsg _ messages error maxRecordSize => ∃ code reason, error = code.text ∧
    (messages.mapM fun m => decodeMessage m (maxRecordSize.getD Limits.zmuxMaxRecordSize)
      (some allGates)) = .error (.decodeError code reason)

/-- A message that is sound is a valid one of its position. -/
theorem MessageForm.Sound.encoded {message : MessageForm} (sound : message.Sound) :
    ∃ mb fs pos, message.encoded = .ok mb ∧
      decodeMessage mb Limits.zmuxMaxRecordSize (some allGates) = .ok fs ∧
      encodeFrames fs = .ok mb ∧ messagePosition mb = .ok pos := by
  -- A message within the limit is one whose length can be written.
  have counted : ∀ {mb fs}, decodeMessage mb Limits.zmuxMaxRecordSize (some allGates) = .ok fs →
      ∃ pos, messagePosition mb = .ok pos := by
    intro mb fs decoded
    have bound := (decodeMessage_eq_ok.mp decoded).1
    have small : mb.length ≤ maxVarint := by
      rw [maxVarint]
      rw [Limits.zmuxMaxRecordSize] at bound
      omega
    exact ⟨_, by rw [messagePosition, encodeVarint_shortest small, ok_bind, pure_ok]⟩
  cases message with
  | frames given =>
    obtain ⟨fs, rfl, fitting⟩ := sound
    obtain ⟨body, encoded, decoded, again⟩ := fitting.message
    obtain ⟨pos, position⟩ := counted decoded
    refine ⟨body, canonical fs, pos, ?_, decoded, again, position⟩
    rw [MessageForm.encoded, encodeFramesDict, framesOf_dicts, encodeRead, encoded]
  | bytes data =>
    obtain ⟨fs, decoded, again⟩ := sound
    obtain ⟨pos, position⟩ := counted decoded
    exact ⟨data, fs, pos, rfl, decoded, again, position⟩

/-- The messages that the builder encodes and counts are right one by one. -/
theorem okmsg_messages {messages : List MessageForm} (sound : ∀ message ∈ messages, message.Sound) :
    ∃ enc positions, messages.mapM MessageForm.encoded = .ok enc ∧
      enc.mapM messagePosition = .ok positions ∧
      checkMessages cid (some allGates) ((enc.map hexText).zip positions) = .ok [] := by
  -- The induction is on the messages.
  induction messages with
  | nil => exact ⟨[], [], rfl, rfl, rfl⟩
  | cons message messages ih =>
    rw [List.forall_mem_cons] at sound
    obtain ⟨mb, fs, pos, encoded, decoded, again, position⟩ := sound.1.encoded
    obtain ⟨enc, positions, rest, counts, checked⟩ := ih sound.2
    refine ⟨mb :: enc, pos :: positions, ?_, ?_, ?_⟩
    · rw [List.mapM_cons, encoded, ok_bind, rest, ok_bind, pure_ok]
    · rw [List.mapM_cons, position, ok_bind, counts, ok_bind, pure_ok]
    · rw [List.map_cons, List.zip_cons_cons, checkMessages_cons]
      exact ⟨⟨mb, fs, fromHex_hexText mb, decoded, again, position⟩, checked⟩

/-- Messages are decoded from their texts as they are. -/
theorem messages_decode {enabled : Gates} {most : Nat} (messages : List Bytes) :
    (InvalidContent.messages (messages.map hexText) (some most)).decode enabled limit =
      (messages.mapM fun m => decodeMessage m most enabled).map fun _ => () := by
  rw [InvalidContent.decode, Option.getD_some, List.forM_eq_forM]
  -- The induction is on the messages, the first of which that is refused ends both sides.
  induction messages with
  | nil => rfl
  | cons m messages ih =>
    rw [List.map_cons, List.forM_cons, fromHex_hexText, ok_bind, ih, List.mapM_cons]
    cases decodeMessage m most enabled with
    | error fault => rfl
    | ok frames => cases messages.mapM fun m => decodeMessage m most enabled <;> rfl

/-- A corpus with one more valid entry that is right stays without reports. -/
theorem checkCorpus_accept {c : Corpus} {e : ValidEntry} (checked : checkCorpus c = .ok [])
    (right : checkValid e = .ok []) : checkCorpus (c.accept e) = .ok [] := by
  rw [checkCorpus_eq_nil] at checked ⊢
  refine ⟨?_, checked.2⟩
  rw [Corpus.accept, List.forall_mem_append]
  exact ⟨checked.1, by simpa using right⟩

/-- A corpus with one more invalid entry that is right stays without reports. -/
theorem checkCorpus_refuse {c : Corpus} {e : InvalidEntry} (checked : checkCorpus c = .ok [])
    (right : checkInvalid e = .ok []) : checkCorpus (c.refuse e) = .ok [] := by
  rw [checkCorpus_eq_nil] at checked ⊢
  refine ⟨checked.1, ?_⟩
  rw [Corpus.refuse, List.forall_mem_append]
  exact ⟨checked.2, by simpa using right⟩

/-- A sound call does not raise, and adds an entry that is right. -/
theorem CorpusCall.Sound.apply {call : CorpusCall} {c : Corpus} (sound : call.Sound)
    (checked : checkCorpus c = .ok []) :
    ∃ next, call.apply c = .ok next ∧ checkCorpus next = .ok [] := by
  cases call with
  | ok cid frame gates limits =>
    obtain ⟨f, rfl, formed, other, permitted⟩ := sound
    obtain ⟨b, encoded, decoded⟩ := formed.alone other
    -- The frame that is decoded has its defaults explicit, and is encoded to the same bytes.
    have through := decodeFrame_permitted decoded (permitted b encoded)
    have right : checkValid ⟨cid, gatesOr gates, limits, .frame (hexText b) f.dict.toJson false⟩ =
        .ok [] := by
      refine checkValid_frame.mpr ⟨b, f.explicit, fromHex_hexText b, through, ?_⟩
      rw [checkFrame_minimal, encodeFrame_explicit formed, Value.fromJson_toJson _
        formed.documented.recoverable, ok_bind, encodeFrameDict_dict]
      exact ⟨encoded, encoded⟩
    refine ⟨_, ?_, checkCorpus_accept checked right⟩
    rw [CorpusCall.apply, Corpus.ok, encodeFrameDict_dict, encoded, ok_bind, pure_ok]
  | okNonMinimal cid bytes frame =>
    obtain ⟨f, rfl, decoded, longer⟩ := sound
    refine ⟨_, rfl, checkCorpus_accept checked ?_⟩
    -- The bytes are longer than those of the frame, which describes them.
    obtain ⟨-, -, -, -, known⟩ := decodeFrame_again decoded
    refine checkValid_frame.mpr ⟨bytes, f, fromHex_hexText bytes, decoded, ?_⟩
    rw [checkFrame_nonMinimal decoded, known.described]
    exact ⟨longer, Value.same_toJson f.dict f.dict_keyed, rfl⟩
  | okrec cid frames =>
    obtain ⟨fs, rfl, sendable⟩ := sound
    -- The record is decoded in canonical form, which is encoded to it again.
    obtain ⟨piece, encoded, decoded, again⟩ := sendable.record
    have right : checkValid ⟨cid, allGates, none, .record (hexText piece)
        (Value.list (fs.map Frame.dict)).toJson⟩ = .ok [] :=
      checkValid_record.mpr ⟨piece, _, fromHex_hexText piece, decoded, again⟩
    refine ⟨_, ?_, checkCorpus_accept checked right⟩
    rw [CorpusCall.apply, Corpus.okrec, encodeRecordDict, framesOf_dicts, encodeRead, encoded,
      ok_bind, pure_ok]
  | okmsg cid messages =>
    obtain ⟨enc, positions, encoded, counted, right⟩ := @okmsg_messages cid messages sound
    -- All messages are right, so the entry is.
    have entry : checkValid ⟨cid, allGates, none, .messages (enc.map hexText) positions⟩ = .ok [] :=
      right
    refine ⟨_, ?_, checkCorpus_accept checked entry⟩
    rw [CorpusCall.apply, Corpus.okmsg, encoded, ok_bind, counted, ok_bind, pure_ok]
  | bad cid bytes error kind gates limits =>
    obtain ⟨code, reason, rfl, failed⟩ := sound
    refine ⟨_, rfl, checkCorpus_refuse checked (checkInvalid_eq_nil.mpr ⟨code, reason, ?_, rfl⟩)⟩
    -- The bytes are refused as a frame, or as a stream of records.
    cases kind with
    | frame => simp [InvalidContent.decode, fromHex_hexText, failed]
    | record => simp [InvalidContent.decode, fromHex_hexText, failed]
  | badmsg cid messages error maxRecordSize =>
    obtain ⟨code, reason, rfl, failed⟩ := sound
    refine ⟨_, rfl, checkCorpus_refuse checked (checkInvalid_eq_nil.mpr ⟨code, reason, ?_, rfl⟩)⟩
    -- The messages are read from their texts, and refused as they are.
    have decoded := @messages_decode none (some allGates)
      (maxRecordSize.getD Limits.zmuxMaxRecordSize) messages
    rw [failed] at decoded
    cases maxRecordSize <;> exact decoded

/-- The builder and the check agree: sound calls do not raise, and nothing is wrong with what they write. -/
theorem corpus_checked (calls : List CorpusCall) (sound : ∀ call ∈ calls, call.Sound) (c : Corpus)
    (checked : checkCorpus c = .ok []) :
    ∃ next, buildCorpus calls c = .ok next ∧ checkCorpus next = .ok [] := by
  -- The induction is on the calls, each of which leaves the corpus without reports.
  induction calls generalizing c with
  | nil => exact ⟨c, rfl, checked⟩
  | cons call calls ih =>
    rw [List.forall_mem_cons] at sound
    obtain ⟨next, applied, right⟩ := sound.1.apply checked
    obtain ⟨last, built, final⟩ := ih sound.2 next right
    refine ⟨last, ?_, final⟩
    rw [buildCorpus, applied, ok_bind, built]

/-- A longer spelling, an empty message, and a frame of an unknown type, added to an empty corpus. -/
theorem corpus_checked_small : ∃ next,
    buildCorpus [.okNonMinimal "max-data-wide" [0x10, 0x40, 5] (Frame.maxData 5).dict,
      .okmsg "messages" [.bytes [], .bytes [0x10, 5]],
      .bad "unknown-type-2f" [0x2F] "FRAME_ENCODING_ERROR" .frame none none] ⟨[], []⟩ = .ok next ∧
    checkCorpus next = .ok [] := by
  refine corpus_checked _ ?_ ⟨[], []⟩ rfl
  intro call member
  simp only [List.mem_cons, List.not_mem_nil, or_false] at member
  -- Each of the three calls is sound.
  rcases member with rfl | rfl | rfl
  · exact ⟨.maxData 5, rfl, by decide +kernel, by decide +kernel⟩
  · intro message listed
    simp only [List.mem_cons, List.not_mem_nil, or_false] at listed
    rcases listed with rfl | rfl
    · exact ⟨[], rfl, rfl⟩
    · exact ⟨[.maxData 5], by decide +kernel, by decide +kernel⟩
  · exact ⟨.frameEncodingError, _, rfl, rfl⟩

end Builder

end Zmux
