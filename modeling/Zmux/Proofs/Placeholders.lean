import Zmux.Codec.TraceDsl
import Zmux.Codec.VarintLaws
import Zmux.Wire.Alike

/-! Records have one length, whatever the runner fills in for their placeholders. -/

namespace Zmux

open Wire

/-- The numbers whose shortest form takes four bytes. -/
def FourBytes (number : Nat) : Prop := 1 <<< 14 ≤ number ∧ number < 1 <<< 30

mutual

/-- What a value may become: each placeholder in it gives way to a number of its own. -/
def Value.Fills : Value → Value → Prop
  | .dict fields, filled =>
    if hasField fields "$sent" then ∃ number, FourBytes number ∧ filled = .nat number
    else ∃ others, filled = .dict others ∧ FieldsFill fields others
  | .list items, filled => ∃ others, filled = .list others ∧ ItemsFill items others
  | .none, filled => filled = .none
  | .bool flag, filled => filled = .bool flag
  | .int number, filled => filled = .int number
  | .str text, filled => filled = .str text
  | .bytes data, filled => filled = .bytes data

/-- What fields may become: the same keys, with what their values become. -/
def FieldsFill : Fields → Fields → Prop
  | [], others => others = []
  | (key, value) :: fields, others =>
    ∃ filled rest, others = (key, filled) :: rest ∧ value.Fills filled ∧ FieldsFill fields rest

/-- What items may become, one by one. -/
def ItemsFill : List Value → List Value → Prop
  | [], others => others = []
  | item :: items, others =>
    ∃ filled rest, others = filled :: rest ∧ item.Fills filled ∧ ItemsFill items rest

end

/-- Whether an entry has placeholders in its position only. -/
def Value.entryPlaced : Value → Bool
  | .dict fields => !hasField fields "$sent" &&
    fields.all fun field => field.1 = "position" || !field.2.hasPlaceholder
  | entry => !entry.hasPlaceholder

/-- Whether the entries of an acknowledgement have placeholders in their positions only. -/
def Value.entriesPlaced : Value → Bool
  | .list entries => entries.all Value.entryPlaced
  | entries => !entries.hasPlaceholder

mutual

/-- Whether a frame, repeated or not, has placeholders in positions of acknowledgements only. -/
def Value.placed : Value → Bool
  | .dict fields => !hasField fields "$sent" &&
    fieldsPlaced ((fields.lookup "type").bind Value.text) fields
  | .list items => !itemsHavePlaceholder items
  | .none | .bool _ | .int _ | .str _ | .bytes _ => true

/-- Whether the fields of a frame of a type do. -/
def fieldsPlaced (type : Option String) : Fields → Bool
  | [] => true
  | (key, value) :: fields =>
    (!value.hasPlaceholder ||
      (decide (type = some FrameName.pipeAck.text ∧ key = "entries") && value.entriesPlaced) ||
      (decide (type = some "REPEAT" ∧ key = "frame") && value.placed)) && fieldsPlaced type fields

end

section Filling

/-- Items are filled side by side. -/
theorem itemsFill_iff {items others : List Value} :
    ItemsFill items others ↔ List.Forall₂ Value.Fills items others := by
  -- The induction is on the items.
  induction items generalizing others with
  | nil => rw [ItemsFill, List.forall₂_nil_left_iff]
  | cons item items ih =>
    simp only [ItemsFill, List.forall₂_cons_left_iff, ih]
    constructor
    · rintro ⟨filled, rest, rfl, head, tail⟩
      exact ⟨filled, rest, head, tail, rfl⟩
    · rintro ⟨filled, rest, head, tail, rfl⟩
      exact ⟨filled, rest, rfl, head, tail⟩

mutual

/-- A value without placeholders stays as it is. -/
theorem Value.Fills.plain : ∀ {value filled : Value}, value.Fills filled →
    value.hasPlaceholder = false → filled = value
  | .dict fields, filled, fills, free => by
    -- A dict without placeholders is none itself, and has none inside.
    rw [Value.hasPlaceholder, Bool.or_eq_false_iff] at free
    rw [Value.Fills, free.1, if_neg Bool.false_ne_true] at fills
    obtain ⟨others, rfl, fills⟩ := fills
    rw [FieldsFill.plain fills free.2]
  | .list items, filled, fills, free => by
    obtain ⟨others, rfl, fills⟩ := fills
    rw [ItemsFill.plain fills free]
  | .none, _, fills, _ | .bool _, _, fills, _ | .int _, _, fills, _ | .str _, _, fills, _
  | .bytes _, _, fills, _ => fills

/-- Fields without placeholders stay as they are. -/
theorem FieldsFill.plain : ∀ {fields others : Fields}, FieldsFill fields others →
    fieldsHavePlaceholder fields = false → others = fields
  | [], _, fills, _ => fills
  | (key, value) :: fields, _, fills, free => by
    rw [fieldsHavePlaceholder, Bool.or_eq_false_iff] at free
    obtain ⟨filled, rest, rfl, head, tail⟩ := fills
    rw [head.plain free.1, FieldsFill.plain tail free.2]

/-- Items without placeholders stay as they are. -/
theorem ItemsFill.plain : ∀ {items others : List Value}, ItemsFill items others →
    itemsHavePlaceholder items = false → others = items
  | [], _, fills, _ => fills
  | item :: items, _, fills, free => by
    rw [itemsHavePlaceholder, Bool.or_eq_false_iff] at free
    obtain ⟨filled, rest, rfl, head, tail⟩ := fills
    rw [head.plain free.1, ItemsFill.plain tail free.2]

end

/-- The number that stands in for placeholders takes four bytes. -/
theorem placeholderStandin_fourBytes : FourBytes placeholderStandin := by
  rw [FourBytes, placeholderStandin]
  decide

mutual

/-- The numbers that stand in for placeholders are such numbers. -/
theorem Value.fills_standIn : ∀ value : Value, value.Fills value.standIn
  | .dict fields => by
    rw [Value.Fills, Value.standIn]
    split
    · exact ⟨_, placeholderStandin_fourBytes, rfl⟩
    · exact ⟨_, rfl, fieldsFill_standIn fields⟩
  | .list items => ⟨_, rfl, itemsFill_standIn items⟩
  | .none | .bool _ | .int _ | .str _ | .bytes _ => rfl

/-- Stand-ins fill the placeholders in fields. -/
theorem fieldsFill_standIn : ∀ fields : Fields, FieldsFill fields (fieldsStandIn fields)
  | [] => rfl
  | (_, value) :: fields => ⟨_, _, rfl, value.fills_standIn, fieldsFill_standIn fields⟩

/-- Stand-ins fill the placeholders in items. -/
theorem itemsFill_standIn : ∀ items : List Value, ItemsFill items (itemsStandIn items)
  | [] => rfl
  | item :: items => ⟨_, _, rfl, item.fills_standIn, itemsFill_standIn items⟩

end

variable {fields left right : Fields} {key : String}

/-- What stands under a key on two sides comes from one value under that key. -/
theorem FieldsFill.lookup {P : Value → Prop} (fills : FieldsFill fields left)
    (other : FieldsFill fields right) (each : ∀ field ∈ fields, field.1 = key → P field.2) :
    Option.Rel
      (fun first second => ∃ value : Value, P value ∧ value.Fills first ∧ value.Fills second)
      (left.lookup key) (right.lookup key) := by
  -- The induction is on the fields, side by side with what they became.
  induction fields generalizing left right with
  | nil =>
    rw [show left = [] from fills, show right = [] from other]
    exact .none
  | cons field fields ih =>
    obtain ⟨first, lefts, rfl, head, tail⟩ := fills
    obtain ⟨second, rights, rfl, top, rest⟩ := other
    rw [List.forall_mem_cons] at each
    rw [List.lookup_cons, List.lookup_cons]
    -- The key of the first field is the same on both sides.
    split
    · rename_i found
      exact .some ⟨_, each.1 (eq_of_beq found).symm, head, top⟩
    · exact ih tail rest each.2

/-- Under a key whose values have no placeholders, the same value stands afterwards. -/
theorem FieldsFill.lookup_plain (fills : FieldsFill fields left)
    (free : ∀ field ∈ fields, field.1 = key → field.2.hasPlaceholder = false) :
    left.lookup key = fields.lookup key := by
  -- The induction is on the fields, side by side with what they became.
  induction fields generalizing left with
  | nil => rw [show left = [] from fills]
  | cons field fields ih =>
    obtain ⟨filled, rest, rfl, head, tail⟩ := fills
    rw [List.forall_mem_cons] at free
    rw [List.lookup_cons, List.lookup_cons, ih tail free.2]
    split
    · rename_i found
      rw [head.plain (free.1 (eq_of_beq found).symm)]
    · trivial

/-- Fields have no placeholder when none of their values has one. -/
theorem fieldsHavePlaceholder_iff : fieldsHavePlaceholder fields = false ↔
    ∀ field ∈ fields, field.2.hasPlaceholder = false := by
  -- The induction is on the fields.
  induction fields with
  | nil => simp [fieldsHavePlaceholder]
  | cons field fields ih =>
    rw [fieldsHavePlaceholder, Bool.or_eq_false_iff, ih, List.forall_mem_cons]

/-- Placeholders in fields are in the entries of an acknowledgement, or in a repeated frame. -/
theorem fieldsPlaced_iff {type : Option String} : fieldsPlaced type fields = true ↔
    ∀ field ∈ fields, field.2.hasPlaceholder = false ∨
      (type = some FrameName.pipeAck.text ∧ field.1 = "entries") ∧ field.2.entriesPlaced = true ∨
      (type = some "REPEAT" ∧ field.1 = "frame") ∧ field.2.placed = true := by
  -- The induction is on the fields.
  induction fields with
  | nil => simp [fieldsPlaced]
  | cons field fields ih =>
    simp only [fieldsPlaced, Bool.and_eq_true, Bool.or_eq_true, Bool.not_eq_true',
      decide_eq_true_eq, ih, List.forall_mem_cons, or_assoc]

end Filling

section Readings

/-- Two positions that are read from one value: the same number, or two that take four bytes. -/
def PositionAlike (first second : Nat) : Prop :=
  first = second ∨ FourBytes first ∧ FourBytes second

/-- Two entries that are read from one value. -/
structure AckEntry.Alike (first second : AckEntry) : Prop where
  pipe : first.pipe = second.pipe
  lane : first.lane = second.lane
  position : PositionAlike first.position second.position
  delay : first.delay = second.delay

/-- An entry is alike to itself. -/
theorem AckEntry.Alike.refl (entry : AckEntry) : entry.Alike entry := ⟨rfl, rfl, .inl rfl, rfl⟩

/-- Two frames that are read from one value, and differ in positions that take four bytes. -/
inductive Frame.Alike : Frame → Frame → Prop
  | same (f : Frame) : Frame.Alike f f
  | pipeAck {entries others : List AckEntry} (each : List.Forall₂ AckEntry.Alike entries others) :
    Frame.Alike (.pipeAck entries) (.pipeAck others)
  | repeated {f g : Frame} (inner : Frame.Alike f g) (count : Nat) :
    Frame.Alike (.repeated f count) (.repeated g count)

variable {value first second : Value} {fields : Fields}

/-- A number comes from the same number, or from a placeholder. -/
theorem Value.Fills.natural (fills : value.Fills first) (other : value.Fills second) :
    Option.Rel PositionAlike first.natural second.natural := by
  cases value with
  | dict fields =>
    rw [Value.Fills] at fills other
    split at fills
    · -- A placeholder becomes a number of four bytes on both sides.
      rename_i held
      rw [if_pos held] at other
      obtain ⟨number, four, rfl⟩ := fills
      obtain ⟨more, large, rfl⟩ := other
      exact .some (.inr ⟨four, large⟩)
    · -- Any other dict is no number on either side.
      rename_i free
      rw [if_neg free] at other
      obtain ⟨left, rfl, -⟩ := fills
      obtain ⟨right, rfl, -⟩ := other
      exact .none
  | list items =>
    obtain ⟨left, rfl, -⟩ := fills
    obtain ⟨right, rfl, -⟩ := other
    exact .none
  | none | bool | int | str | bytes =>
    rw [fills.plain rfl, other.plain rfl]
    exact rel_of_eq (fun _ => .inl rfl) rfl

/-- A dict without a placeholder of its own stays a dict. -/
theorem fields_of_fills (fills : (Value.dict fields).Fills first)
    (free : hasField fields "$sent" = false) :
    ∃ left, first = .dict left ∧ FieldsFill fields left := by
  rwa [Value.Fills, free, if_neg Bool.false_ne_true] at fills

/-- An entry is read alike when only its position has placeholders. -/
theorem AckEntry.ofDict_alike (placed : value.entryPlaced = true) (fills : value.Fills first)
    (other : value.Fills second) :
    Option.Rel AckEntry.Alike (AckEntry.ofDict first) (AckEntry.ofDict second) := by
  cases value with
  | dict fields =>
    simp only [Value.entryPlaced, Bool.and_eq_true, Bool.not_eq_true', List.all_eq_true,
      Bool.or_eq_true, decide_eq_true_eq] at placed
    obtain ⟨left, rfl, held⟩ := fields_of_fills fills placed.1
    obtain ⟨right, rfl, more⟩ := fields_of_fills other placed.1
    -- All fields but the position have no placeholder, so they are the same.
    have kept : ∀ key, key ≠ "position" → left.lookup key = right.lookup key := by
      intro key different
      have free : ∀ field ∈ fields, field.1 = key → field.2.hasPlaceholder = false := by
        rintro field member rfl
        exact (placed.2 field member).resolve_left different
      rw [held.lookup_plain free, more.lookup_plain free]
    -- The position comes from one value on both sides.
    have positioned : Option.Rel PositionAlike (field left "position" Value.natural)
        (field right "position" Value.natural) := by
      refine rel_bind (@FieldsFill.lookup _ _ _ _ (fun _ => True) held more fun _ _ _ => trivial) ?_
      rintro first second ⟨value, -, fills, other⟩
      exact fills.natural other
    simp only [ofDict, field, kept "pipe" (by decide), kept "lane" (by decide),
      kept "delay" (by decide)]
    refine rel_bind (rel_of_eq Eq.refl rfl) ?_
    rintro pipe _ rfl
    refine rel_bind (rel_of_eq Eq.refl rfl) ?_
    rintro lane _ rfl
    refine rel_bind positioned ?_
    intro position more alike
    refine rel_bind (rel_of_eq Eq.refl rfl) ?_
    rintro delay _ rfl
    exact .some ⟨rfl, rfl, alike, rfl⟩
  | none | bool | int | str | bytes | list =>
    -- Such an entry has no placeholder at all, and stays as it is.
    simp only [Value.entryPlaced, Bool.not_eq_true'] at placed
    rw [fills.plain placed, other.plain placed]
    exact rel_of_eq Alike.refl rfl

/-- The frame of a REPEAT is the one that was read already. -/
theorem Frame.ofDictWith_repeat (named : field fields "type" Value.text = some "REPEAT")
    (inner : Option Frame) : Frame.ofDictWith fields inner =
      (field fields "count" Value.natural).bind fun count =>
        inner.bind fun frame => some (.repeated frame count) := by
  rw [Frame.ofDictWith, named]
  rfl

/-- An acknowledgement is read by its entries. -/
theorem Frame.ofDictWith_pipeAck
    (named : field fields "type" Value.text = some FrameName.pipeAck.text) (inner : Option Frame) :
    Frame.ofDictWith fields inner =
      (field fields "entries" (Value.items AckEntry.ofDict)).map .pipeAck := by
  rw [Frame.ofDictWith, named]
  rfl

/-- Entries without placeholders are read twice as the same entries. -/
theorem entries_same (free : value.hasPlaceholder = false) (fills : value.Fills first)
    (other : value.Fills second) : Option.Rel (List.Forall₂ AckEntry.Alike)
      (Value.items AckEntry.ofDict first) (Value.items AckEntry.ofDict second) := by
  rw [fills.plain free, other.plain free]
  apply rel_of_eq
  · intro entries
    exact List.forall₂_same.mpr fun entry _ => AckEntry.Alike.refl entry
  · rfl

/-- Entries are read alike when only their positions have placeholders. -/
theorem entries_alike (placed : value.entriesPlaced = true) (fills : value.Fills first)
    (other : value.Fills second) : Option.Rel (List.Forall₂ AckEntry.Alike)
      (Value.items AckEntry.ofDict first) (Value.items AckEntry.ofDict second) := by
  cases value with
  | list items =>
    obtain ⟨left, rfl, fills⟩ := fills
    obtain ⟨right, rfl, other⟩ := other
    rw [itemsFill_iff] at fills other
    rw [Value.entriesPlaced, List.all_eq_true] at placed
    apply rel_mapM
    -- The induction is on the entries, which are filled one by one on both sides.
    induction fills generalizing right with
    | nil =>
      cases other
      exact .nil
    | cons head tail ih =>
      cases other with
      | cons top rest =>
        rw [List.forall_mem_cons] at placed
        exact .cons (AckEntry.ofDict_alike placed.1 head top) (ih placed.2 _ rest)
  | none | bool | int | str | bytes | dict =>
    simp only [Value.entriesPlaced, Bool.not_eq_true'] at placed
    exact entries_same placed fills other

/-- A key under which a frame has no placeholder has the same value on both sides. -/
theorem FieldsFill.kept {type : Option String} {left : Fields} {key : String}
    (fills : FieldsFill fields left) (placed : fieldsPlaced type fields = true)
    (other : key ≠ "entries" ∧ key ≠ "frame") : left.lookup key = fields.lookup key := by
  apply fills.lookup_plain
  rintro field member rfl
  -- Placeholders may be under two keys only, and this is neither.
  rcases fieldsPlaced_iff.mp placed field member with free | ⟨⟨-, same⟩, -⟩ | ⟨⟨-, same⟩, -⟩
  · exact free
  · exact absurd same other.1
  · exact absurd same other.2

section Kinds

variable {left right : Fields}

/-- The type of a frame is what it was. -/
theorem FieldsFill.type {type : Option String} (fills : FieldsFill fields left)
    (placed : fieldsPlaced type fields = true) :
    field left "type" Value.text = field fields "type" Value.text := by
  rw [field, fills.kept placed (by decide), field]

/-- Repetitions of frames that are read alike are read alike. -/
theorem Frame.repeat_alike {inner other : Option Frame}
    (repeats : field fields "type" Value.text = some "REPEAT")
    (placed : fieldsPlaced (some "REPEAT") fields = true) (fills : FieldsFill fields left)
    (more : FieldsFill fields right) (alike : Option.Rel Frame.Alike inner other) :
    Option.Rel Frame.Alike (Frame.ofDictWith left inner) (Frame.ofDictWith right other) := by
  rw [Frame.ofDictWith_repeat ((fills.type placed).trans repeats),
    Frame.ofDictWith_repeat ((more.type placed).trans repeats)]
  -- The count is the same on both sides, and the frames are alike.
  rw [field, fills.kept placed (by decide), field, more.kept placed (by decide)]
  refine rel_bind (rel_of_eq Eq.refl rfl) ?_
  rintro count _ rfl
  refine rel_bind alike ?_
  intro f g related
  exact .some (related.repeated count)

/-- Acknowledgements are read alike, entry by entry. -/
theorem Frame.pipeAck_alike {inner other : Option Frame}
    (acks : field fields "type" Value.text = some FrameName.pipeAck.text)
    (placed : fieldsPlaced (some FrameName.pipeAck.text) fields = true)
    (fills : FieldsFill fields left) (more : FieldsFill fields right) :
    Option.Rel Frame.Alike (Frame.ofDictWith left inner) (Frame.ofDictWith right other) := by
  rw [Frame.ofDictWith_pipeAck ((fills.type placed).trans acks),
    Frame.ofDictWith_pipeAck ((more.type placed).trans acks)]
  -- The entries have no placeholder, or have them in their positions.
  have listed : ∀ field ∈ fields, field.1 = "entries" →
      field.2.hasPlaceholder = false ∨ field.2.entriesPlaced = true := by
    intro field member _
    rcases fieldsPlaced_iff.mp placed field member with free | ⟨-, inside⟩ | ⟨⟨same, -⟩, -⟩
    · exact .inl free
    · exact .inr inside
    · exact absurd same (by decide)
  have entries := @FieldsFill.lookup _ _ _ "entries"
    (fun value => value.hasPlaceholder = false ∨ value.entriesPlaced = true) fills more listed
  refine rel_map (rel_bind entries ?_) fun _ _ => .pipeAck
  rintro first second ⟨value, free | inside, fills, other⟩
  · exact entries_same free fills other
  · exact entries_alike inside fills other

/-- Fields of any other frame have no placeholder, so they stay as they are. -/
theorem FieldsFill.other {type : Option String} (fills : FieldsFill fields left)
    (placed : fieldsPlaced type fields = true) (acks : type ≠ some FrameName.pipeAck.text)
    (repeats : type ≠ some "REPEAT") : left = fields := by
  apply fills.plain
  refine fieldsHavePlaceholder_iff.mpr ?_
  intro field member
  -- Only two types may have placeholders, and this is neither.
  rcases fieldsPlaced_iff.mp placed field member with free | ⟨⟨same, -⟩, -⟩ | ⟨⟨same, -⟩, -⟩
  · exact free
  · exact absurd same acks
  · exact absurd same repeats

end Kinds

mutual

/-- Frames are read alike when only positions of acknowledgements have placeholders. -/
theorem Frame.ofDict_alike : ∀ {value first second : Value}, value.placed = true →
    value.Fills first → value.Fills second →
    Option.Rel Frame.Alike (Frame.ofDict first) (Frame.ofDict second)
  | .dict fields, first, second, placed, fills, other => by
    rw [Value.placed, Bool.and_eq_true, Bool.not_eq_true'] at placed
    obtain ⟨free, placed⟩ := placed
    obtain ⟨left, rfl, held⟩ := fields_of_fills fills free
    obtain ⟨right, rfl, more⟩ := fields_of_fills other free
    rw [Frame.ofDict, Frame.ofDict]
    -- The two types that may hold placeholders are read by their own rules.
    by_cases repeats : (fields.lookup "type").bind Value.text = some "REPEAT"
    · rw [repeats] at placed
      exact Frame.repeat_alike repeats placed held more (Frame.ofInner_alike placed held more)
    by_cases acks : (fields.lookup "type").bind Value.text = some FrameName.pipeAck.text
    · rw [acks] at placed
      exact Frame.pipeAck_alike acks placed held more
    · rw [held.other placed acks repeats, more.other placed acks repeats]
      exact rel_of_eq Frame.Alike.same rfl
  | .list items, first, second, placed, fills, other => by
    have free : (Value.list items).hasPlaceholder = false := by
      rwa [Value.placed, Bool.not_eq_true'] at placed
    rw [fills.plain free, other.plain free]
    exact .none
  | .none, _, _, _, fills, other | .bool _, _, _, _, fills, other | .int _, _, _, _, fills, other
  | .str _, _, _, _, fills, other | .bytes _, _, _, _, fills, other => by
    rw [fills, other]
    exact .none

/-- The frames inside repetitions are read alike. -/
theorem Frame.ofInner_alike : ∀ {fields left right : Fields},
    fieldsPlaced (some "REPEAT") fields = true → FieldsFill fields left → FieldsFill fields right →
    Option.Rel Frame.Alike (Frame.ofInner left) (Frame.ofInner right)
  | [], _, _, _, fills, other => by
    rw [show _ = [] from fills, show _ = [] from other]
    exact .none
  | (key, value) :: fields, _, _, placed, fills, other => by
    have head := fieldsPlaced_iff.mp placed (key, value) List.mem_cons_self
    rw [fieldsPlaced, Bool.and_eq_true] at placed
    obtain ⟨first, lefts, rfl, fills, tail⟩ := fills
    obtain ⟨second, rights, rfl, other, rest⟩ := other
    rw [Frame.ofInner, Frame.ofInner]
    split
    · -- The frame has no placeholder, or is one that may have some.
      rcases head with free | ⟨⟨same, -⟩, -⟩ | ⟨-, inside⟩
      · rw [fills.plain free, other.plain free]
        exact rel_of_eq Frame.Alike.same rfl
      · exact absurd same (by decide)
      · exact Frame.ofDict_alike inside fills other
    · exact Frame.ofInner_alike placed.2 tail rest

end

end Readings

section Lengths

/-- A number that takes four bytes is encoded in four. -/
theorem v_fourBytes {number : Nat} (four : FourBytes number) :
    ∃ bytes, v number = .ok bytes ∧ bytes.length = 4 := by
  obtain ⟨large, small⟩ := four
  have fits : number ≤ maxVarint := by
    rw [maxVarint]
    omega
  -- Four bytes are the shortest that the number fits in.
  have width : varintShortest number = 4 := by
    rw [varintShortest, if_neg (by omega), if_neg (by omega), if_pos small]
  have legal := legal_shortest_iff.mpr fits
  refine ⟨_, encodeVarint_shortest fits, ?_⟩
  rw [varintForm_length legal, width]

/-- Two positions that are alike are encoded in as many bytes. -/
theorem v_alike {first second : Nat} (alike : PositionAlike first second) :
    SameLength (v first) (v second) := by
  -- They are the same number, or both take four bytes.
  rcases alike with rfl | ⟨four, other⟩
  · exact .refl _
  · obtain ⟨left, encoded, length⟩ := v_fourBytes four
    obtain ⟨right, written, same⟩ := v_fourBytes other
    rw [encoded, written, SameLength.ok_iff, length, same]

/-- Two lists of such positions are encoded in as many bytes. -/
theorem vs_alike {values others : List Nat} (each : List.Forall₂ PositionAlike values others) :
    SameLength (vs values) (vs others) := by
  -- The induction is on the two lists, side by side.
  induction each with
  | nil => exact .refl _
  | cons head tail ih =>
    rw [vs, vs]
    exact .append (v_alike head) ih

/-- The integers of entries that are read alike, one after the other. -/
theorem values_alike {entries others : List AckEntry}
    (each : List.Forall₂ AckEntry.Alike entries others) :
    List.Forall₂ PositionAlike (entries.flatMap AckEntry.values)
      (others.flatMap AckEntry.values) := by
  -- The induction is on the entries, of which only the positions may differ.
  induction each with
  | nil => exact .nil
  | cons head tail ih =>
    exact .cons (.inl head.pipe) (.cons (.inl head.lane)
      (.cons head.position (.cons (.inl head.delay) ih)))

/-- Frames that are read alike take as many bytes, on every level of repetition. -/
theorem encodeFrame_alike {f g : Frame} (alike : f.Alike g) :
    SameLength (encodeFrame f) (encodeFrame g) := by
  -- The induction is on how the frames are alike, where repetitions have frames inside them.
  induction alike with
  | same f => exact .refl _
  | @pipeAck entries others each =>
    have counted : entries.length = others.length := each.length_eq
    have fields : SameLength (encodeFields (.pipeAck entries) 0)
        (encodeFields (.pipeAck others) 0) :=
      vs_alike (.cons (.inl counted) (values_alike each))
    -- The type is the same, and the width of its encoding too.
    simp only [encodeFrame]
    apply SameLength.bind_same
    intro code
    exact .append (.refl _) fields
  | repeated inner count ih =>
    rw [encodeFrame, encodeFrame]
    apply SameLength.bind ih
    intro once other same
    rw [pure_ok, pure_ok, SameLength.ok_iff]
    simp [List.length_flatten, same]

/-- Frames that are read alike take as many bytes together. -/
theorem encodeFrames_alike {fs gs : List Frame} (each : List.Forall₂ Frame.Alike fs gs) :
    SameLength (encodeFrames fs) (encodeFrames gs) := by
  -- The induction is on the frames, side by side.
  induction each with
  | nil => exact .refl _
  | cons head tail ih =>
    rw [encodeFrames, encodeFrames]
    exact .append (encodeFrame_alike head) ih

/-- The size in front of a record depends on the number of the bytes behind it only. -/
theorem encodeRecord_alike {fs gs : List Frame} (each : List.Forall₂ Frame.Alike fs gs) :
    SameLength (encodeRecord fs) (encodeRecord gs) := by
  rw [encodeRecord, encodeRecord]
  apply SameLength.bind (encodeFrames_alike each)
  -- Bodies of one length have one size in front of them.
  intro body other same
  rw [same]
  apply SameLength.bind_same
  intro size
  rw [pure_ok, pure_ok, SameLength.ok_iff, List.length_append, List.length_append, same]

/-- Records that are read alike take as many bytes together. -/
theorem recordBytes_alike {records others : List (List Frame)}
    (each : List.Forall₂ (List.Forall₂ Frame.Alike) records others) :
    SameLength (recordBytes records) (recordBytes others) := by
  rw [recordBytes, recordBytes]
  -- The induction is on the records, side by side.
  induction each with
  | nil => exact .refl _
  | cons head tail ih =>
    rw [List.map_cons, List.map_cons, joinBytes, joinBytes]
    exact .append (encodeRecord_alike head) ih

/-- What is read alike is encoded alike when the encoder does not tell the two apart. -/
theorem encodeRead_alike {α : Type} {R : α → α → Prop} {encode : α → Except Failure Bytes}
    {first second : Option α} (read : Option.Rel R first second)
    (onward : ∀ left right, R left right → SameLength (encode left) (encode right)) :
    SameLength (encodeRead encode first) (encodeRead encode second) := by
  cases read with
  | none => exact .refl _
  | some related => exact onward _ _ related

end Lengths

/-- The size that is written in front of the frames of a record. -/
def recordSize (record : Value) : Except Failure Bytes := do
  let body ← encodeFramesDict record
  encodeVarint body.length

/-- The frames of a record are read alike, one by one. -/
theorem framesOf_alike {frames lefts rights : List Value}
    (placed : ∀ f ∈ frames, f.placed = true) (fills : ItemsFill frames lefts)
    (other : ItemsFill frames rights) :
    Option.Rel (List.Forall₂ Frame.Alike) (framesOf (.list lefts)) (framesOf (.list rights)) := by
  apply rel_mapM
  -- The induction is on the frames, which are filled on both sides.
  induction frames generalizing lefts rights with
  | nil =>
    rw [show lefts = [] from fills, show rights = [] from other]
    exact .nil
  | cons f frames ih =>
    obtain ⟨first, lefts, rfl, head, tail⟩ := fills
    obtain ⟨second, rights, rfl, top, rest⟩ := other
    rw [List.forall_mem_cons] at placed
    exact .cons (Frame.ofDict_alike placed.1 head top) (ih placed.2 tail rest)

/-- Records are read alike, one by one. -/
theorem recordsOf_alike {records : List (List Value)} {lefts rights : List Value}
    (placed : ∀ record ∈ records, ∀ f ∈ record, f.placed = true)
    (fills : ItemsFill (records.map .list) lefts) (other : ItemsFill (records.map .list) rights) :
    List.Forall₂ (fun left right => Option.Rel (List.Forall₂ Frame.Alike) (framesOf left)
      (framesOf right)) lefts rights := by
  -- The induction is on the records, which are filled on both sides.
  induction records generalizing lefts rights with
  | nil =>
    rw [show lefts = [] from fills, show rights = [] from other]
    exact .nil
  | cons record records ih =>
    obtain ⟨first, lefts, rfl, ⟨fs, rfl, head⟩, tail⟩ := fills
    obtain ⟨second, rights, rfl, ⟨gs, rfl, top⟩, rest⟩ := other
    rw [List.forall_mem_cons] at placed
    exact .cons (framesOf_alike placed.1 head top) (ih placed.2 tail rest)

/-- A size depends on nothing that is filled in. -/
theorem recordSize_alike {left right : Value}
    (read : Option.Rel (List.Forall₂ Frame.Alike) (framesOf left) (framesOf right)) :
    recordSize left = recordSize right := by
  -- The frames take as many bytes on both sides, and the size says how many.
  have same : SameLength (encodeFramesDict left) (encodeFramesDict right) := by
    apply encodeRead_alike read
    intro fs gs each
    exact encodeFrames_alike each
  exact same.bind_length fun length => encodeVarint length

/--
Records take as many bytes as with the numbers that stand in for their placeholders.

So do their sizes: what is filled in changes no width.
-/
theorem placeholderRecordLen_exact (records : List (List Value))
    (placed : ∀ record ∈ records, ∀ f ∈ record, f.placed = true) (resolved : List Value)
    (fills : (Value.list (records.map .list)).Fills (.list resolved)) :
    (recordBytesDict (.list resolved)).map List.length =
        placeholderRecordLen (.list (records.map .list)) ∧
      resolved.map recordSize = (itemsStandIn (records.map .list)).map recordSize := by
  obtain ⟨_, ⟨⟩, fills⟩ := fills
  -- The stand-ins are one way to fill the placeholders, so both sides are read alike.
  have read := recordsOf_alike placed fills (itemsFill_standIn _)
  constructor
  · -- Records that are read alike take as many bytes.
    have same : SameLength (recordBytesDict (.list resolved))
        (recordBytesDict (Value.list (records.map .list)).standIn) := by
      apply encodeRead_alike (rel_mapM read)
      intro left right each
      exact recordBytes_alike each
    exact same.bind_length .ok
  · rw [← List.forall₂_eq_eq_eq, List.forall₂_map_left_iff, List.forall₂_map_right_iff]
    exact read.imp fun _ _ => recordSize_alike

/-- An entry of an acknowledgement whose position is given. -/
def entryAt (pipe lane : Nat) (position : Value) : Value :=
  .dict [("pipe", .nat pipe), ("lane", .nat lane), ("position", position), ("delay", .nat 0)]

/-- A repeated acknowledgement on two pipes, whose positions are given. -/
def repeatedAck (first second : Value) : Value :=
  .dict [("type", .str "REPEAT"), ("count", .nat 3), ("frame", .dict [("type", .str "PIPE_ACK"),
    ("entries", .list [entryAt 0 0 first, entryAt 1 2 second])])]

/-- An entry is filled where its position is. -/
theorem entryAt_fills {pipe lane : Nat} {position filled : Value} (fills : position.Fills filled) :
    (entryAt pipe lane position).Fills (entryAt pipe lane filled) :=
  ⟨_, rfl, _, _, rfl, rfl, _, _, rfl, rfl, _, _, rfl, fills, _, _, rfl, rfl, rfl⟩

/-- A repeated acknowledgement is filled where its two positions are. -/
theorem repeatedAck_fills {first second left right : Value} (fills : first.Fills left)
    (other : second.Fills right) : (repeatedAck first second).Fills (repeatedAck left right) := by
  -- The two entries are filled one by one.
  have entries : (Value.list [entryAt 0 0 first, entryAt 1 2 second]).Fills
      (.list [entryAt 0 0 left, entryAt 1 2 right]) :=
    ⟨_, rfl, _, _, rfl, entryAt_fills fills, _, _, rfl, entryAt_fills other, rfl⟩
  exact ⟨_, rfl, _, _, rfl, rfl, _, _, rfl, rfl, _, _, rfl,
    ⟨_, rfl, _, _, rfl, rfl, _, _, rfl, entries, rfl⟩, rfl⟩

/-- Three repetitions of two positions, filled with the least number and with the largest. -/
theorem placeholderRecordLen_exact_repeated :
    (recordBytesDict (.list [.list [repeatedAck (.nat 16384) (.nat 1073741823)], .list []])).map
        List.length = .ok 59 ∧
      placeholderRecordLen (.list [.list [repeatedAck (sent 0) (sent 1 4 2)], .list []]) =
        .ok 59 := by
  -- Both numbers take four bytes, the least one and the largest.
  have first : (sent 0).Fills (.nat 16384) := ⟨_, ⟨by decide, by decide⟩, rfl⟩
  have second : (sent 1 4 2).Fills (.nat 1073741823) := ⟨_, ⟨by decide, by decide⟩, rfl⟩
  have records : (Value.list [.list [repeatedAck (sent 0) (sent 1 4 2)], .list []]).Fills
      (.list [.list [repeatedAck (.nat 16384) (.nat 1073741823)], .list []]) :=
    ⟨_, rfl, _, _, rfl, ⟨_, rfl, _, _, rfl, repeatedAck_fills first second, rfl⟩,
      _, _, rfl, ⟨_, rfl, rfl⟩, rfl⟩
  have length : placeholderRecordLen (.list [.list [repeatedAck (sent 0) (sent 1 4 2)], .list []]) =
      .ok 59 := rfl
  have same := (placeholderRecordLen_exact [[repeatedAck (sent 0) (sent 1 4 2)], []] (by decide)
    _ records).1
  exact ⟨same.trans length, length⟩

end Zmux
