import Zmux.Wire.Letters
import Zmux.Wire.Tables

/-! Values as JSON text on a single line, and the values that a text is read as. -/

namespace Wire

/-- A JSON value whose numbers are integers. -/
inductive Json where
  | null
  | bool (flag : Bool)
  | number (value : Int)
  | string (text : String)
  | array (items : List Json)
  | object (fields : List (String × Json))

/-- The white space that may stand between the parts of a text. -/
def isJsonSpace (letter : Char) : Bool := letter ∈ [' ', '\t', '\n', '\r']

section Numbers

/-- A number in decimal digits. -/
def numberText (value : Int) : List Char :=
  if value < 0 then '-' :: Nat.toDigits 10 value.natAbs else Nat.toDigits 10 value.natAbs

/-- The digits at the front of a text, where a zero stands alone. -/
def readDigits : List Char → Option (Nat × List Char)
  | '0' :: rest => some (0, rest)
  | text =>
    if text.takeWhile Char.isDigit = [] then none
    else some (Nat.ofDigitChars 10 (text.takeWhile Char.isDigit) 0, text.dropWhile Char.isDigit)

/-- Digits, and a minus that may be in front of them. -/
def readSigned : List Char → Option (Int × List Char)
  | '-' :: text => (readDigits text).map fun found => (-found.1, found.2)
  | text => (readDigits text).map fun found => (found.1, found.2)

/-- A number, unless a fraction or an exponent follows. -/
def readNumber (text : List Char) : Option (Json × List Char) := do
  let (value, rest) ← readSigned text
  if rest.head?.any (fun letter => letter ∈ ['.', 'e', 'E']) then none else some (.number value, rest)

end Numbers

section Writing

/-- The white space that is written at each depth of a value. -/
structure Spacing where
  /-- Behind the bracket that opens an array or object. -/
  first : Nat → List Char
  /-- Behind a comma. -/
  next : Nat → List Char
  /-- In front of the bracket that closes. -/
  last : Nat → List Char
  blank : ∀ depth, ∀ letter ∈ first depth ++ next depth ++ last depth, isJsonSpace letter = true

/-- A value on a single line. -/
def Spacing.line : Spacing where
  first _ := []
  next _ := [' ']
  last _ := []
  blank _ := by simp [isJsonSpace]

/-- A new line that is indented by some blanks. -/
def newLine (blanks : Nat) : List Char := '\n' :: List.replicate blanks ' '

/-- A new line is white space. -/
theorem newLine_blank {blanks : Nat} : ∀ letter ∈ newLine blanks, isJsonSpace letter = true := by
  intro letter listed
  rcases List.mem_cons.mp listed with rfl | listed
  · rfl
  · rw [List.eq_of_mem_replicate listed]
    rfl

/-- Each item on a line of its own, indented by its depth. -/
def Spacing.indent (step : Nat) : Spacing where
  first depth := newLine (step * (depth + 1))
  next depth := newLine (step * (depth + 1))
  last depth := newLine (step * depth)
  blank depth letter listed := by
    rcases List.mem_append.mp listed with front | last
    · rcases List.mem_append.mp front with first | next
      · exact newLine_blank letter first
      · exact newLine_blank letter next
    · exact newLine_blank letter last

variable (space : Spacing)

mutual

/-- The text of a value that stands at some depth. -/
def Json.text (depth : Nat) : Json → List Char
  | .null => "null".toList
  | .bool true => "true".toList
  | .bool false => "false".toList
  | .number value => numberText value
  | .string text => stringText text.toList
  | .array [] => "[]".toList
  | .array (item :: items) =>
    '[' :: space.first depth ++ item.text (depth + 1) ++ itemsText depth items
  | .object [] => "{}".toList
  | .object ((key, value) :: fields) =>
    '{' :: space.first depth ++ stringText key.toList ++ ": ".toList ++ value.text (depth + 1)
      ++ fieldsText depth fields

/-- The items behind the first one, and the end of the array. -/
def itemsText (depth : Nat) : List Json → List Char
  | [] => space.last depth ++ [']']
  | item :: items => ',' :: space.next depth ++ item.text (depth + 1) ++ itemsText depth items

/-- The fields behind the first one, and the end of the object. -/
def fieldsText (depth : Nat) : List (String × Json) → List Char
  | [] => space.last depth ++ ['}']
  | (key, value) :: fields =>
    ',' :: space.next depth ++ stringText key.toList ++ ": ".toList ++ value.text (depth + 1)
      ++ fieldsText depth fields

end

end Writing

section Reading

/-- What is behind the white space in front of a text. -/
def skipSpace (text : List Char) : List Char := text.dropWhile isJsonSpace

/-- The key of a field, which a colon follows. -/
def readKey (text : List Char) : Option (String × List Char) :=
  match text with
  | '"' :: text => do
    let (key, rest) ← readLetters text
    match skipSpace rest with
    | ':' :: rest => some (String.ofList key, skipSpace rest)
    | _ => none
  | _ => none

mutual

/-- A value at the front of a text, and what is behind it; every step into the text takes some of the fuel. -/
def readValue : Nat → List Char → Option (Json × List Char)
  | 0, _ => none
  | fuel + 1, text =>
    match text with
    | '"' :: rest => (readLetters rest).map fun found => (.string (String.ofList found.1), found.2)
    | 'n' :: 'u' :: 'l' :: 'l' :: rest => some (.null, rest)
    | 't' :: 'r' :: 'u' :: 'e' :: rest => some (.bool true, rest)
    | 'f' :: 'a' :: 'l' :: 's' :: 'e' :: rest => some (.bool false, rest)
    | '[' :: rest =>
      match skipSpace rest with
      | ']' :: rest => some (.array [], rest)
      | rest => (readItems fuel rest).map fun found => (.array found.1, found.2)
    | '{' :: rest =>
      match skipSpace rest with
      | '}' :: rest => some (.object [], rest)
      | rest => (readFields fuel rest).map fun found =>
        -- A key that comes again takes the place of the one that is there.
        (.object (found.1.foldl (fun table field => put table field.1 field.2) []), found.2)
    | text => readNumber text

/-- The items of an array from one of them on. -/
def readItems : Nat → List Char → Option (List Json × List Char)
  | 0, _ => none
  | fuel + 1, text => do
    let (item, rest) ← readValue fuel text
    match skipSpace rest with
    | ']' :: rest => some ([item], rest)
    | ',' :: rest => (readItems fuel (skipSpace rest)).map fun found => (item :: found.1, found.2)
    | _ => none

/-- The fields of an object from one of them on. -/
def readFields : Nat → List Char → Option (List (String × Json) × List Char)
  | 0, _ => none
  | fuel + 1, text => do
    let (key, rest) ← readKey text
    let (value, rest) ← readValue fuel rest
    match skipSpace rest with
    | '}' :: rest => some ([(key, value)], rest)
    | ',' :: rest =>
      (readFields fuel (skipSpace rest)).map fun found => ((key, value) :: found.1, found.2)
    | _ => none

end

/-- The value of a whole text. -/
def readJson (text : List Char) : Option Json := do
  let (value, rest) ← readValue (2 * text.length + 1) (skipSpace text)
  if skipSpace rest = [] then some value else none

end Reading

section RoundTrip

mutual

/-- The keys of every object are distinct. -/
def Json.KeyedAll : Json → Prop
  | .object fields => (fields.map Prod.fst).Nodup ∧ FieldsKeyedAll fields
  | .array items => ItemsKeyedAll items
  | .null | .bool _ | .number _ | .string _ => True

/-- The keys of every object in the items are distinct. -/
def ItemsKeyedAll : List Json → Prop
  | [] => True
  | item :: items => item.KeyedAll ∧ ItemsKeyedAll items

/-- The keys of every object in the values of the fields are distinct. -/
def FieldsKeyedAll : List (String × Json) → Prop
  | [] => True
  | (_, value) :: fields => value.KeyedAll ∧ FieldsKeyedAll fields

end

/-- What may follow a value: the end of the text, white space, a separator or a closing bracket. -/
def Behind (rest : List Char) : Prop :=
  ∀ letter ∈ rest.head?, isJsonSpace letter = true ∨ letter ∈ [',', ']', '}']

variable {space : Spacing} {depth fuel : Nat} {front rest : List Char}

/-- White space with a separator or a bracket behind it may follow a value. -/
theorem behind_blank {letter : Char} (blank : ∀ letter ∈ front, isJsonSpace letter = true)
    (closing : letter ∈ [',', ']', '}']) : Behind (front ++ letter :: rest) := by
  intro other first
  -- Without white space the separator comes first.
  cases front with
  | nil =>
    cases first
    exact .inr closing
  | cons blank_letter front =>
    cases first
    exact .inl (blank _ List.mem_cons_self)

/-- What is written behind an opening bracket is white space. -/
theorem Spacing.blank_first : ∀ letter ∈ space.first depth, isJsonSpace letter = true :=
  fun letter listed => space.blank depth letter (by simp [listed])

/-- What is written behind a comma is white space. -/
theorem Spacing.blank_next : ∀ letter ∈ space.next depth, isJsonSpace letter = true :=
  fun letter listed => space.blank depth letter (by simp [listed])

/-- What is written in front of a closing bracket is white space. -/
theorem Spacing.blank_last : ∀ letter ∈ space.last depth, isJsonSpace letter = true :=
  fun letter listed => space.blank depth letter (by simp [listed])

/-- The rest of an array may follow its first item. -/
theorem behind_itemsText (items : List Json) : Behind (itemsText space depth items ++ rest) := by
  cases items with
  | nil =>
    rw [itemsText, List.append_assoc]
    exact behind_blank Spacing.blank_last (by decide)
  | cons item items => exact @behind_blank [] _ _ (by simp) (by decide)

/-- The rest of an object may follow its first field. -/
theorem behind_fieldsText (fields : List (String × Json)) :
    Behind (fieldsText space depth fields ++ rest) := by
  cases fields with
  | nil =>
    rw [fieldsText, List.append_assoc]
    exact behind_blank Spacing.blank_last (by decide)
  | cons field fields => exact @behind_blank [] _ _ (by simp) (by decide)

/-- The rest of an array has its closing bracket at least. -/
theorem itemsText_length (items : List Json) : 0 < (itemsText space depth items).length := by
  cases items with
  | nil => simp [itemsText]
  | cons item items => simp [itemsText]

/-- The rest of an object has its closing bracket at least. -/
theorem fieldsText_length (fields : List (String × Json)) :
    0 < (fieldsText space depth fields).length := by
  cases fields with
  | nil => simp [fieldsText]
  | cons field fields => simp [fieldsText]

section Numbers

/-- The digits of a number that is not zero do not begin with a zero. -/
theorem toDigits_front {n : Nat} (positive : 0 < n) :
    ∃ first others, Nat.toDigits 10 n = first :: others ∧ first ≠ '0' := by
  induction n using Nat.strongRecOn with
  | ind n ih =>
    -- The first digit is that of a number of one digit, in the end.
    by_cases small : n < 10
    · refine ⟨_, _, Nat.toDigits_of_lt_base small, ?_⟩
      rw [ne_eq, Nat.digitChar_eq_zero]
      omega
    · obtain ⟨first, others, digits, other⟩ := ih (n / 10) (by omega) (by omega)
      rw [Nat.toDigits_of_base_le (by decide) (by omega), digits]
      exact ⟨first, _, rfl, other⟩

/-- No digit, point or exponent follows a number. -/
theorem not_isDigit_behind {letter : Char}
    (behind : isJsonSpace letter = true ∨ letter ∈ [',', ']', '}']) :
    letter.isDigit = false ∧ letter ∉ ['.', 'e', 'E'] := by
  simp only [isJsonSpace, decide_eq_true_eq, List.mem_cons, List.not_mem_nil, or_false] at behind
  rcases behind with (rfl | rfl | rfl | rfl) | rfl | rfl | rfl <;> decide

/-- Digits are read as the number they were written for. -/
theorem readDigits_toDigits (n : Nat) (behind : Behind rest) :
    readDigits (Nat.toDigits 10 n ++ rest) = some (n, rest) := by
  rcases Nat.eq_zero_or_pos n with rfl | positive
  · rfl
  · have digit : ∀ letter ∈ Nat.toDigits 10 n, letter.isDigit = true :=
      fun _ => Nat.isDigit_of_mem_toDigits (by decide) (by decide)
    -- No digit follows, so all digits are those that were written.
    have stop : rest.takeWhile Char.isDigit = [] ∧ rest.dropWhile Char.isDigit = rest := by
      cases rest with
      | nil => exact ⟨rfl, rfl⟩
      | cons letter rest => simp [(not_isDigit_behind (behind letter rfl)).1]
    obtain ⟨first, others, digits, other⟩ := toDigits_front positive
    rw [readDigits]
    · rw [List.takeWhile_append_of_pos digit, List.dropWhile_append_of_pos digit, stop.1, stop.2,
        List.append_nil, if_neg Nat.toDigits_ne_nil, Nat.ofDigitChars_ten_toDigits]
    · rw [digits]
      -- The number is not zero, so it does not begin with a zero.
      intro _ same
      cases same
      exact other rfl

/-- A number is read with its sign. -/
theorem readSigned_text (value : Int) (behind : Behind rest) :
    readSigned (numberText value ++ rest) = some (value, rest) := by
  have digits := readDigits_toDigits value.natAbs behind
  rw [numberText]
  -- The minus is written in front of the digits of a negative number only.
  by_cases negative : value < 0
  · have whole : -(value.natAbs : Int) = value := by omega
    rw [if_pos negative, List.cons_append, readSigned, digits, Option.map_some, whole]
  · have whole : (value.natAbs : Int) = value := by omega
    have digit : ∀ letter ∈ Nat.toDigits 10 value.natAbs, letter.isDigit = true :=
      fun _ => Nat.isDigit_of_mem_toDigits (by decide) (by decide)
    rw [if_neg negative, readSigned]
    · rw [digits, Option.map_some, whole]
    · intro text same
      -- A minus is not a digit.
      cases front : Nat.toDigits 10 value.natAbs with
      | nil => exact absurd front Nat.toDigits_ne_nil
      | cons first others =>
        rw [front, List.cons_append] at same
        cases same
        have minus := digit '-' (by rw [front]; exact List.mem_cons_self)
        exact absurd minus (by decide)

/-- A number is read as it was written. -/
theorem readNumber_text (value : Int) (behind : Behind rest) :
    readNumber (numberText value ++ rest) = some (.number value, rest) := by
  -- No point and no exponent follows.
  have plain : ¬ rest.head?.any (fun letter => letter ∈ ['.', 'e', 'E']) = true := by
    rw [Option.any_eq_true]
    rintro ⟨letter, front, listed⟩
    exact (not_isDigit_behind (behind letter front)).2 (of_decide_eq_true listed)
  rw [readNumber, readSigned_text value behind, Option.bind_eq_bind, Option.bind_some]
  dsimp only
  rw [if_neg plain]

/-- A number begins with a minus or a digit. -/
theorem numberText_front (value : Int) :
    ∃ first others, numberText value = first :: others ∧ (first = '-' ∨ first.isDigit = true) := by
  rw [numberText]
  split
  · exact ⟨_, _, rfl, .inl rfl⟩
  · cases front : Nat.toDigits 10 value.natAbs with
    | nil => exact absurd front Nat.toDigits_ne_nil
    | cons first others =>
      have listed : first ∈ Nat.toDigits 10 value.natAbs := by
        rw [front]
        exact List.mem_cons_self
      exact ⟨first, others, rfl, .inr (Nat.isDigit_of_mem_toDigits (by decide) (by decide) listed)⟩

end Numbers

section Values

/-- A text that begins with a minus or a digit is read as a number. -/
theorem readValue_number (value : Int) (behind : Behind rest) :
    readValue (fuel + 1) (numberText value ++ rest) = some (.number value, rest) := by
  obtain ⟨first, others, front, kind⟩ := numberText_front value
  rw [readValue]
  · exact readNumber_text value behind
  -- None of the other values begins with a minus or a digit.
  all_goals
    intro _ same
    rw [front, List.cons_append] at same
    rw [(List.cons.inj same).1] at kind
    exact absurd kind (by decide)

/-- White space is passed by. -/
theorem skipSpace_blank (blank : ∀ letter ∈ front, isJsonSpace letter = true) :
    skipSpace (front ++ rest) = skipSpace rest :=
  List.dropWhile_append_of_pos blank

/-- Any other letter is not passed by. -/
theorem skipSpace_solid {letter : Char} (solid : isJsonSpace letter = false) :
    skipSpace (letter :: rest) = letter :: rest :=
  List.dropWhile_cons_of_neg (by rw [solid]; decide)

/-- No value begins with a space, or with what ends an array. -/
theorem text_front (value : Json) : ∃ first others, value.text space depth = first :: others ∧
    isJsonSpace first = false ∧ first ≠ ']' := by
  cases value with
  | null => exact ⟨_, _, rfl, by decide⟩
  | bool flag => cases flag <;> exact ⟨_, _, rfl, by decide⟩
  | number value =>
    obtain ⟨first, others, front, kind⟩ := numberText_front value
    refine ⟨first, others, front, ?_, ?_⟩
    · rw [isJsonSpace, decide_eq_false_iff_not]
      intro listed
      simp only [List.mem_cons, List.not_mem_nil, or_false] at listed
      -- A minus or a digit is none of the white space.
      rcases listed with rfl | rfl | rfl | rfl <;> exact absurd kind (by decide)
    · rintro rfl
      exact absurd kind (by decide)
  | string text => exact ⟨_, _, rfl, by decide⟩
  | array items => cases items <;> exact ⟨_, _, rfl, by decide⟩
  | object fields => cases fields <;> exact ⟨_, _, rfl, by decide⟩

/-- The white space in front of a value is passed by, and nothing of the value. -/
theorem skipSpace_text (value : Json) (blank : ∀ letter ∈ front, isJsonSpace letter = true) :
    skipSpace (front ++ (value.text space depth ++ rest)) = value.text space depth ++ rest := by
  obtain ⟨first, others, text, solid, -⟩ := @text_front space depth value
  rw [skipSpace_blank blank, text, List.cons_append, skipSpace_solid solid]

/-- A key is read as it was written, up to the value behind it. -/
theorem readKey_text (key : String) (value : Json) :
    readKey (stringText key.toList ++ (": ".toList ++ (value.text space depth ++ rest))) =
      some (key, value.text space depth ++ rest) := by
  -- The colon follows the key, and one blank the colon.
  have colon : skipSpace (": ".toList ++ (value.text space depth ++ rest)) =
      ':' :: ([' '] ++ (value.text space depth ++ rest)) := rfl
  have gap := @skipSpace_text space depth [' '] rest value (by simp [isJsonSpace])
  simp only [stringText, List.cons_append, List.append_assoc, List.nil_append, readKey,
    readLetters_written, Option.bind_eq_bind, Option.bind_some] at colon gap ⊢
  simp only [colon, gap, String.ofList_toList]

/-- Every text of a value takes some fuel. -/
theorem text_fuel {value : Json} (enough : (value.text space depth).length ≤ fuel) :
    ∃ less, fuel = less + 1 := by
  obtain ⟨first, others, front, -⟩ := @text_front space depth value
  rw [front, List.length_cons] at enough
  exact ⟨fuel - 1, by omega⟩

end Values

mutual

/-- A value is read as it was written. -/
theorem readValue_text (value : Json) (depth fuel : Nat) (rest : List Char) (keyed : value.KeyedAll)
    (behind : Behind rest) (enough : (value.text space depth).length ≤ fuel) :
    readValue fuel (value.text space depth ++ rest) = some (value, rest) := by
  obtain ⟨fuel, rfl⟩ := text_fuel enough
  cases value with
  | null => rfl
  | bool flag => cases flag <;> rfl
  | number value =>
    rw [Json.text]
    exact readValue_number value behind
  | string text =>
    rw [Json.text, stringText, List.cons_append, List.cons_append, List.append_assoc, readValue,
      List.singleton_append, readLetters_written, Option.map_some, String.ofList_toList]
  | array items =>
    cases items with
    | nil => rfl
    | cons item items =>
      simp only [Json.text, List.cons_append, List.length_cons, List.length_append] at enough
      -- There is a first item, which is no closing bracket, and the others follow it.
      have later := readItems_text item items depth fuel rest keyed
        (by rw [List.length_append]; omega)
      obtain ⟨first, others, front, -, other⟩ := @text_front space (depth + 1) item
      simp only [Json.text, List.cons_append, List.append_assoc] at later ⊢
      rw [readValue, skipSpace_text item Spacing.blank_first]
      split
      · rename_i same
        rw [front, List.cons_append] at same
        exact absurd (List.cons.inj same).1 other
      · rw [later, Option.map_some]
  | object fields =>
    cases fields with
    | nil => rfl
    | cons field fields =>
      obtain ⟨key, value⟩ := field
      simp only [Json.text, List.cons_append, List.length_cons, List.length_append] at enough
      have later := readFields_text key value fields depth fuel rest keyed.2
        (by simp only [List.length_append]; omega)
      -- The keys are distinct, so that each is put behind the others.
      have once := @foldl_put _ _ _ _ [] Prod.fst Prod.snd ((key, value) :: fields)
        (by simpa [Json.KeyedAll] using keyed.1)
      rw [List.nil_append, List.map_id'] at once
      simp only [Json.text, List.cons_append, List.append_assoc, stringText] at later ⊢
      rw [readValue, skipSpace_blank Spacing.blank_first, skipSpace_solid (by decide)]
      split
      · rename_i same
        exact absurd (List.cons.inj same).1 (by decide)
      · rw [later, Option.map_some, once]
termination_by fuel

/-- The items of an array are read as they were written, up to its end. -/
theorem readItems_text (item : Json) (items : List Json) (depth fuel : Nat) (rest : List Char)
    (keyed : ItemsKeyedAll (item :: items))
    (enough : (item.text space (depth + 1) ++ itemsText space depth items).length ≤ fuel) :
    readItems fuel (item.text space (depth + 1) ++ itemsText space depth items ++ rest) =
      some (item :: items, rest) := by
  have some_text := @itemsText_length space depth items
  rw [List.length_append] at enough
  obtain ⟨fuel, rfl⟩ := @text_fuel space (depth + 1) fuel item (by omega)
  -- The first item is read, and then the end of the array or a comma.
  have front := readValue_text item (depth + 1) fuel (itemsText space depth items ++ rest) keyed.1
    (behind_itemsText items) (by omega)
  rw [readItems, List.append_assoc, front, Option.bind_eq_bind, Option.bind_some]
  dsimp only
  cases items with
  | nil =>
    rw [itemsText, List.append_assoc, skipSpace_blank Spacing.blank_last]
    rfl
  | cons next items =>
    simp only [itemsText, List.cons_append, List.length_cons, List.length_append] at enough
    have later := readItems_text next items depth fuel rest keyed.2
      (by rw [List.length_append]; omega)
    simp only [itemsText, List.cons_append, List.append_assoc] at later ⊢
    rw [skipSpace_solid (by decide)]
    show (readItems fuel (skipSpace (space.next depth ++ _))).map _ = _
    rw [skipSpace_text next Spacing.blank_next, later, Option.map_some]
termination_by fuel

/-- The fields of an object are read as they were written, up to its end. -/
theorem readFields_text (key : String) (value : Json) (fields : List (String × Json))
    (depth fuel : Nat) (rest : List Char) (keyed : FieldsKeyedAll ((key, value) :: fields))
    (enough : (stringText key.toList ++ ": ".toList ++ value.text space (depth + 1)
      ++ fieldsText space depth fields).length ≤ fuel) :
    readFields fuel (stringText key.toList ++ ": ".toList ++ value.text space (depth + 1)
      ++ fieldsText space depth fields ++ rest) = some ((key, value) :: fields, rest) := by
  have some_text := @fieldsText_length space depth fields
  simp only [List.length_append] at enough
  obtain ⟨fuel, rfl⟩ := @text_fuel space (depth + 1) fuel value (by omega)
  -- The first value is read behind its key, and then the end of the object or a comma.
  have front := readValue_text value (depth + 1) fuel (fieldsText space depth fields ++ rest)
    keyed.1 (behind_fieldsText fields)
    (by have colon : ": ".toList.length = 2 := rfl
        omega)
  simp only [List.append_assoc] at front ⊢
  rw [readFields, readKey_text, Option.bind_eq_bind, Option.bind_some]
  dsimp only
  rw [front, Option.bind_eq_bind, Option.bind_some]
  dsimp only
  cases fields with
  | nil =>
    rw [fieldsText, List.append_assoc, skipSpace_blank Spacing.blank_last]
    rfl
  | cons field fields =>
    obtain ⟨next, after⟩ := field
    simp only [fieldsText, List.cons_append, List.length_cons, List.length_append] at enough
    have later := readFields_text next after fields depth fuel rest keyed.2
      (by simp only [List.length_append]; omega)
    simp only [fieldsText, List.cons_append, List.append_assoc, stringText] at later ⊢
    rw [skipSpace_solid (by decide)]
    show (readFields fuel (skipSpace (space.next depth ++ _))).map _ = _
    rw [skipSpace_blank Spacing.blank_next, skipSpace_solid (by decide), later, Option.map_some]
termination_by fuel

end

/-- A value whose objects have distinct keys is read back from its text, however it is spaced. -/
theorem readJson_text {value : Json} (keyed : value.KeyedAll) (space : Spacing)
    (blank : ∀ letter ∈ rest, isJsonSpace letter = true) :
    readJson (value.text space 0 ++ rest) = some value := by
  have front := @skipSpace_text space 0 [] rest value (by simp)
  -- What follows the value is white space, or nothing.
  have behind : Behind rest := by
    intro letter first
    exact .inl (blank letter (List.mem_of_head? first))
  have whole := @readValue_text space value 0 (2 * (value.text space 0 ++ rest).length + 1) rest keyed
    behind (by rw [List.length_append]; omega)
  have last : skipSpace (rest ++ []) = [] := skipSpace_blank blank
  rw [List.nil_append] at front
  rw [List.append_nil] at last
  rw [readJson, front, whole, Option.bind_eq_bind, Option.bind_some]
  dsimp only
  rw [if_pos last]

end RoundTrip

section Reading

variable {fuel : Nat} {text rest : List Char}

/-- The letters of a string are taken from the front of a text. -/
theorem readLetters_length {letters : List Char} (read : readLetters text = some (letters, rest)) :
    rest.length < text.length := by
  -- The induction is on the letters that are read, each of which takes some of the text.
  fun_induction readLetters text generalizing letters with
  | case1 => cases read
  | case2 back =>
    cases read
    exact Nat.lt_succ_self _
  | case3 => cases read
  | case4 first others _ letter back found shorter ih =>
    obtain ⟨⟨letters, last⟩, later, same⟩ := Option.map_eq_some_iff.mp read
    cases same
    exact Nat.lt_trans (ih later) shorter

/-- What is left behind white space is no longer than the text. -/
theorem skipSpace_length (text : List Char) : (skipSpace text).length ≤ text.length :=
  (List.dropWhile_suffix _).length_le

/-- Digits are taken from the front of a text. -/
theorem readDigits_length {n : Nat} (read : readDigits text = some (n, rest)) :
    rest.length < text.length := by
  unfold readDigits at read
  split at read
  · cases read
    exact Nat.lt_succ_self _
  · split at read
    · cases read
    · rename_i _ some_digit
      cases read
      -- At least one digit is taken.
      have whole := congrArg List.length (@List.takeWhile_append_dropWhile _ Char.isDigit text)
      have positive := List.length_pos_of_ne_nil some_digit
      rw [List.length_append] at whole
      omega

/-- A number with its sign is taken from the front of a text. -/
theorem readSigned_length {value : Int} (read : readSigned text = some (value, rest)) :
    rest.length < text.length := by
  unfold readSigned at read
  split at read
  · obtain ⟨found, digits, same⟩ := Option.map_eq_some_iff.mp read
    cases same
    exact Nat.lt_succ_of_lt (readDigits_length digits)
  · obtain ⟨found, digits, same⟩ := Option.map_eq_some_iff.mp read
    cases same
    exact readDigits_length digits

/-- A number is taken from the front of a text, and has no keys. -/
theorem readNumber_length {value : Json} (read : readNumber text = some (value, rest)) :
    value.KeyedAll ∧ rest.length < text.length := by
  simp only [readNumber, Option.bind_eq_bind, Option.bind_eq_some_iff] at read
  obtain ⟨⟨number, back⟩, signed, read⟩ := read
  dsimp only at read
  split at read
  · cases read
  · cases read
    exact ⟨trivial, readSigned_length signed⟩

/-- A key is taken from the front of a text. -/
theorem readKey_length {key : String} (read : readKey text = some (key, rest)) :
    rest.length < text.length := by
  unfold readKey at read
  split at read
  · rename_i text
    simp only [Option.bind_eq_bind, Option.bind_eq_some_iff] at read
    obtain ⟨⟨letters, back⟩, found, read⟩ := read
    -- The letters of the key, the white space and the colon are taken one after the other.
    have first := readLetters_length found
    have second := skipSpace_length back
    dsimp only at read
    split at read
    · rename_i last colon
      cases read
      have third := skipSpace_length last
      rw [colon, List.length_cons] at second
      rw [List.length_cons]
      omega
    · cases read
  · cases read

/-- Fields have distinct keys inside when each of their values has. -/
theorem fieldsKeyedAll_iff {fields : List (String × Json)} :
    FieldsKeyedAll fields ↔ ∀ field ∈ fields, field.2.KeyedAll := by
  -- The induction is on the fields.
  induction fields with
  | nil => simp [FieldsKeyedAll]
  | cons field fields ih => rw [FieldsKeyedAll, ih, List.forall_mem_cons]

/-- An object with one more field put in it has distinct keys. -/
theorem keyedAll_put {table : List (String × Json)} {key : String} {value : Json}
    (keyed : (Json.object table).KeyedAll) (inside : value.KeyedAll) :
    (Json.object (put table key value)).KeyedAll := by
  refine ⟨nodup_put keyed.1, fieldsKeyedAll_iff.mpr fun field listed => ?_⟩
  -- A field is the one that was put, or was there before.
  rcases mem_put listed with rfl | held
  · exact inside
  · exact fieldsKeyedAll_iff.mp keyed.2 field held

/-- An object into which fields are put one after the other has distinct keys. -/
theorem keyedAll_foldl_put {table fields : List (String × Json)} (keyed : (Json.object table).KeyedAll)
    (inside : FieldsKeyedAll fields) :
    (Json.object (fields.foldl (fun table field => put table field.1 field.2) table)).KeyedAll := by
  -- The induction is on the fields that are put.
  induction fields generalizing table with
  | nil => exact keyed
  | cons field fields ih => exact ih (keyedAll_put keyed inside.1) inside.2

mutual

/-- What is read has distinct keys in its objects, and is taken from the front of the text. -/
theorem readValue_sound (fuel : Nat) (text : List Char) (value : Json) (rest : List Char)
    (read : readValue fuel text = some (value, rest)) :
    value.KeyedAll ∧ rest.length < text.length := by
  cases fuel with
  | zero => cases read
  | succ fuel =>
    unfold readValue at read
    split at read
    · obtain ⟨found, letters, same⟩ := Option.map_eq_some_iff.mp read
      cases same
      exact ⟨trivial, Nat.lt_succ_of_lt (readLetters_length letters)⟩
    · cases read
      exact ⟨trivial, by simp only [List.length_cons]; omega⟩
    · cases read
      exact ⟨trivial, by simp only [List.length_cons]; omega⟩
    · cases read
      exact ⟨trivial, by simp only [List.length_cons]; omega⟩
    · -- An array may end at once, or has items.
      rename_i inside
      have gap := skipSpace_length inside
      split at read
      · rename_i last closed
        cases read
        rw [closed, List.length_cons] at gap
        exact ⟨trivial, by rw [List.length_cons]; omega⟩
      · obtain ⟨found, items, same⟩ := Option.map_eq_some_iff.mp read
        cases same
        obtain ⟨keyed, shorter⟩ := readItems_sound fuel _ _ _ items
        exact ⟨keyed, by rw [List.length_cons]; omega⟩
    · -- An object may end at once, or has fields, each of which is put under its key.
      rename_i inside
      have gap := skipSpace_length inside
      split at read
      · rename_i last closed
        cases read
        rw [closed, List.length_cons] at gap
        exact ⟨⟨List.nodup_nil, trivial⟩, by rw [List.length_cons]; omega⟩
      · obtain ⟨found, fields, same⟩ := Option.map_eq_some_iff.mp read
        cases same
        obtain ⟨keyed, shorter⟩ := readFields_sound fuel _ _ _ fields
        exact ⟨keyedAll_foldl_put ⟨List.nodup_nil, trivial⟩ keyed, by rw [List.length_cons]; omega⟩
    · exact readNumber_length read

/-- What is read as items has distinct keys, and is taken from the front of the text. -/
theorem readItems_sound (fuel : Nat) (text : List Char) (items : List Json) (rest : List Char)
    (read : readItems fuel text = some (items, rest)) :
    ItemsKeyedAll items ∧ rest.length < text.length := by
  cases fuel with
  | zero => cases read
  | succ fuel =>
    simp only [readItems, Option.bind_eq_bind, Option.bind_eq_some_iff] at read
    obtain ⟨⟨item, back⟩, first, read⟩ := read
    obtain ⟨keyed, shorter⟩ := readValue_sound fuel text item back first
    have gap := skipSpace_length back
    dsimp only at read
    split at read
    · -- The array ends behind the item.
      rename_i last closed
      cases read
      rw [closed, List.length_cons] at gap
      exact ⟨⟨keyed, trivial⟩, by omega⟩
    · -- Another item follows behind the comma.
      rename_i after comma
      obtain ⟨found, items, same⟩ := Option.map_eq_some_iff.mp read
      cases same
      obtain ⟨others, less⟩ := readItems_sound fuel _ _ _ items
      have blank := skipSpace_length after
      rw [comma, List.length_cons] at gap
      exact ⟨⟨keyed, others⟩, by omega⟩
    · cases read

/-- What is read as fields has distinct keys inside, and is taken from the front of the text. -/
theorem readFields_sound (fuel : Nat) (text : List Char) (fields : List (String × Json))
    (rest : List Char) (read : readFields fuel text = some (fields, rest)) :
    FieldsKeyedAll fields ∧ rest.length < text.length := by
  cases fuel with
  | zero => cases read
  | succ fuel =>
    simp only [readFields, Option.bind_eq_bind, Option.bind_eq_some_iff] at read
    obtain ⟨⟨key, middle⟩, named, ⟨value, back⟩, first, read⟩ := read
    have front := readKey_length named
    obtain ⟨keyed, shorter⟩ := readValue_sound fuel middle value back first
    have gap := skipSpace_length back
    dsimp only at read
    split at read
    · -- The object ends behind the value.
      rename_i last closed
      cases read
      rw [closed, List.length_cons] at gap
      exact ⟨⟨keyed, trivial⟩, by omega⟩
    · -- Another field follows behind the comma.
      rename_i after comma
      obtain ⟨found, fields, same⟩ := Option.map_eq_some_iff.mp read
      cases same
      obtain ⟨others, less⟩ := readFields_sound fuel _ _ _ fields
      have blank := skipSpace_length after
      rw [comma, List.length_cons] at gap
      exact ⟨⟨keyed, others⟩, by omega⟩
    · cases read

end

mutual

/-- Fuel of twice the length of a text is enough: with more of it the text is read the same way. -/
theorem readValue_more (fuel more : Nat) (text : List Char) (enough : 2 * text.length < fuel)
    (least : fuel ≤ more) : readValue more text = readValue fuel text := by
  obtain ⟨fuel, rfl⟩ : ∃ less, fuel = less + 1 := ⟨fuel - 1, by omega⟩
  obtain ⟨more, rfl⟩ : ∃ less, more = less + 1 := ⟨more - 1, by omega⟩
  -- Only arrays and objects go on with what is left of the fuel.
  unfold readValue
  split
  · rfl
  · rfl
  · rfl
  · rfl
  · rename_i inside
    have gap := skipSpace_length inside
    rw [List.length_cons] at enough
    split
    · rfl
    · rw [readItems_more fuel more _ (by omega) (by omega)]
  · rename_i inside
    have gap := skipSpace_length inside
    rw [List.length_cons] at enough
    split
    · rfl
    · rw [readFields_more fuel more _ (by omega) (by omega)]
  · rfl
termination_by fuel

/-- Fuel of twice the length and two more is enough for items. -/
theorem readItems_more (fuel more : Nat) (text : List Char)
    (enough : 2 * text.length + 1 < fuel) (least : fuel ≤ more) :
    readItems more text = readItems fuel text := by
  obtain ⟨fuel, rfl⟩ : ∃ less, fuel = less + 1 := ⟨fuel - 1, by omega⟩
  obtain ⟨more, rfl⟩ : ∃ less, more = less + 1 := ⟨more - 1, by omega⟩
  rw [readItems, readItems, readValue_more fuel more text (by omega) (by omega)]
  cases first : readValue fuel text with
  | none => rfl
  | some found =>
    obtain ⟨item, back⟩ := found
    -- The first item takes some of the text, so the fuel that is left is enough for the rest.
    have shorter := (readValue_sound fuel text item back first).2
    have gap := skipSpace_length back
    simp only [Option.bind_eq_bind, Option.bind_some]
    split
    · rfl
    · rename_i after comma
      have blank := skipSpace_length after
      rw [comma, List.length_cons] at gap
      rw [readItems_more fuel more _ (by omega) (by omega)]
    · rfl
termination_by fuel

/-- Fuel of twice the length and two more is enough for fields. -/
theorem readFields_more (fuel more : Nat) (text : List Char)
    (enough : 2 * text.length + 1 < fuel) (least : fuel ≤ more) :
    readFields more text = readFields fuel text := by
  obtain ⟨fuel, rfl⟩ : ∃ less, fuel = less + 1 := ⟨fuel - 1, by omega⟩
  obtain ⟨more, rfl⟩ : ∃ less, more = less + 1 := ⟨more - 1, by omega⟩
  rw [readFields, readFields]
  cases named : readKey text with
  | none => rfl
  | some found =>
    obtain ⟨key, middle⟩ := found
    have front := readKey_length named
    simp only [Option.bind_eq_bind, Option.bind_some]
    rw [readValue_more fuel more middle (by omega) (by omega)]
    cases first : readValue fuel middle with
    | none => rfl
    | some found =>
      obtain ⟨value, back⟩ := found
      -- The first value takes some of the text, so the fuel that is left is enough for the rest.
      have shorter := (readValue_sound fuel middle value back first).2
      have gap := skipSpace_length back
      simp only [Option.bind_some]
      split
      · rfl
      · rename_i after comma
        have blank := skipSpace_length after
        rw [comma, List.length_cons] at gap
        rw [readFields_more fuel more _ (by omega) (by omega)]
      · rfl
termination_by fuel

end

/-- The value of a text has distinct keys in all its objects. -/
theorem readJson_keyed {value : Json} (read : readJson text = some value) : value.KeyedAll := by
  simp only [readJson, Option.bind_eq_bind, Option.bind_eq_some_iff] at read
  obtain ⟨⟨found, rest⟩, front, read⟩ := read
  dsimp only at read
  -- Nothing but white space is left behind the value.
  split at read
  · cases read
    exact (readValue_sound _ _ _ _ front).1
  · cases read

end Reading

section Line

/-- A number is written in printable letters. -/
theorem numberText_printable (value : Int) : (numberText value).all isPrintable = true := by
  have digits : (Nat.toDigits 10 value.natAbs).all isPrintable = true := by
    rw [List.all_eq_true]
    intro letter listed
    have digit := Nat.isDigit_of_mem_toDigits (by decide) (by decide) listed
    -- The digits stand between the blank and the tilde.
    simp only [Char.isDigit, Bool.and_eq_true, decide_eq_true_eq] at digit
    exact decide_eq_true
      ⟨UInt32.le_trans (by decide) digit.1, UInt32.le_trans digit.2 (by decide)⟩
  rw [numberText]
  split
  · rw [List.all_cons, digits]
    decide
  · exact digits

mutual

/-- The text of a value on a single line has printable letters only. -/
theorem text_printable : ∀ (value : Json) (depth : Nat), (value.text .line depth).all isPrintable = true
  | .null, _ | .bool true, _ | .bool false, _ | .array [], _ | .object [], _ => rfl
  | .number value, _ => numberText_printable value
  | .string text, _ => stringText_printable text.toList
  | .array (item :: items), depth => by
    have front := text_printable item (depth + 1)
    have back := itemsText_printable items depth
    simp only [Json.text, List.cons_append, List.all_cons, List.all_append, front, back]
    rfl
  | .object ((key, value) :: fields), depth => by
    have front := text_printable value (depth + 1)
    have back := fieldsText_printable fields depth
    simp only [Json.text, List.cons_append, List.all_cons, List.all_append, stringText_printable,
      front, back]
    rfl

/-- The rest of an array has printable letters only. -/
theorem itemsText_printable : ∀ (items : List Json) (depth : Nat),
    (itemsText .line depth items).all isPrintable = true
  | [], _ => rfl
  | item :: items, depth => by
    have front := text_printable item (depth + 1)
    have back := itemsText_printable items depth
    simp only [itemsText, List.cons_append, List.all_cons, List.all_append, front, back]
    rfl

/-- The rest of an object has printable letters only. -/
theorem fieldsText_printable : ∀ (fields : List (String × Json)) (depth : Nat),
    (fieldsText .line depth fields).all isPrintable = true
  | [], _ => rfl
  | (key, value) :: fields, depth => by
    have front := text_printable value (depth + 1)
    have back := fieldsText_printable fields depth
    simp only [fieldsText, List.cons_append, List.all_cons, List.all_append, stringText_printable,
      front, back]
    rfl

end

end Line

end Wire
