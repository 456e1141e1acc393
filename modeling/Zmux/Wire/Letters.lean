import Zmux.Wire.HexText

/-! Strings of JSON in printable letters, with escapes for all others, and back. -/

namespace Wire

section Letters

/-- The letters that are written with a backslash and a letter of their own. -/
def shortEscapes : List (Char × Char) :=
  [('"', '"'), ('\\', '\\'), ('\n', 'n'), ('\r', 'r'), ('\t', 't'), ('\x0c', 'f'), ('\x08', 'b')]

/-- A letter of sixteen bits in four digits. -/
def unitText (unit : Nat) : List Char :=
  ['\\', 'u', Nat.digitChar (unit / 4096), Nat.digitChar (unit / 256 % 16),
    Nat.digitChar (unit / 16 % 16), Nat.digitChar (unit % 16)]

/-- A letter that is neither a control character nor beyond seven bits. -/
def isPrintable (letter : Char) : Bool := ' ' ≤ letter ∧ letter ≤ '~'

/-- A letter in printable ones, where one beyond sixteen bits is written in two halves. -/
def escapeLetter (letter : Char) : List Char :=
  match shortEscapes.lookup letter with
  | some short => ['\\', short]
  | none =>
    if isPrintable letter then [letter]
    else if letter.toNat < 0x10000 then unitText letter.toNat
    else unitText (0xD800 + (letter.toNat - 0x10000) / 1024) ++
      unitText (0xDC00 + (letter.toNat - 0x10000) % 1024)

/-- A letter of sixteen bits behind a backslash and a `u`. -/
def readUnit : List Char → Option (Nat × List Char)
  | a :: b :: c :: d :: rest => do
    let a ← hexValue a
    let b ← hexValue b
    let c ← hexValue c
    let d ← hexValue d
    return (4096 * a + 256 * b + 16 * c + d, rest)
  | _ => none

/-- The letter of two halves, of which the second must follow the first. -/
def readSecond (first : Nat) : List Char → Option (Char × List Char)
  | '\\' :: 'u' :: rest => do
    let (second, rest) ← readUnit rest
    if 0xDC00 ≤ second ∧ second < 0xE000 then
      some (Char.ofNat (0x10000 + 1024 * (first - 0xD800) + (second - 0xDC00)), rest)
    else none
  | _ => none

/-- A letter in four digits, or in two times four where the first ones are a half. -/
def readEscaped (text : List Char) : Option (Char × List Char) := do
  let (unit, rest) ← readUnit text
  if unit < 0xD800 ∨ 0xE000 ≤ unit then some (Char.ofNat unit, rest)
  else if unit < 0xDC00 then readSecond unit rest
  else none

/-- A letter that was written as another one behind a backslash. -/
def readShort (short : Char) : Option Char :=
  if short = '/' then some '/'
  else (shortEscapes.find? fun row => row.2 = short).map Prod.fst

/-- One letter of a string, and what is behind it. -/
def readLetter : List Char → Option (Char × List Char)
  | [] => none
  | '\\' :: 'u' :: rest => readEscaped rest
  | '\\' :: short :: rest => (readShort short).map fun letter => (letter, rest)
  | letter :: rest => if letter < ' ' then none else some (letter, rest)

/-- A letter of sixteen bits is taken from the front of a text. -/
theorem readUnit_length {text rest : List Char} {unit : Nat}
    (read : readUnit text = some (unit, rest)) : rest.length < text.length := by
  unfold readUnit at read
  split at read
  · simp only [Option.bind_eq_bind, Option.bind_eq_some_iff, Option.pure_def, Option.some.injEq,
      Prod.mk.injEq] at read
    obtain ⟨_, -, _, -, _, -, _, -, -, rfl⟩ := read
    simp only [List.length_cons]
    omega
  · cases read

/-- The second half of a letter is taken from the front of a text. -/
theorem readSecond_length {text rest : List Char} {first : Nat} {letter : Char}
    (read : readSecond first text = some (letter, rest)) : rest.length < text.length := by
  unfold readSecond at read
  split at read
  · simp only [Option.bind_eq_bind, Option.bind_eq_some_iff] at read
    obtain ⟨⟨second, back⟩, half, read⟩ := read
    -- The half follows its own backslash.
    have behind := readUnit_length half
    dsimp only at read
    split at read
    · rw [Option.some.injEq, Prod.mk.injEq] at read
      obtain ⟨-, rfl⟩ := read
      simp only [List.length_cons]
      omega
    · cases read
  · cases read

/-- A letter in digits is taken from the front of a text. -/
theorem readEscaped_length {text rest : List Char} {letter : Char}
    (read : readEscaped text = some (letter, rest)) : rest.length < text.length := by
  simp only [readEscaped, Option.bind_eq_bind, Option.bind_eq_some_iff] at read
  obtain ⟨⟨unit, back⟩, whole, read⟩ := read
  have behind := readUnit_length whole
  dsimp only at read
  split at read
  · cases read
    exact behind
  · split at read
    · exact Nat.lt_trans (readSecond_length read) behind
    · cases read

/-- A letter takes at least one place. -/
theorem readLetter_length {text rest : List Char} {letter : Char}
    (read : readLetter text = some (letter, rest)) : rest.length < text.length := by
  unfold readLetter at read
  split at read
  · cases read
  · -- Digits are behind a backslash and another letter.
    have behind := readEscaped_length read
    simp only [List.length_cons]
    omega
  · simp only [Option.map_eq_some_iff, Prod.mk.injEq] at read
    obtain ⟨-, -, -, rfl⟩ := read
    simp only [List.length_cons]
    omega
  · split at read
    · cases read
    · cases read
      exact Nat.lt_succ_self _

/-- The letters of a string up to the quote that ends it, and what is behind it. -/
def readLetters (text : List Char) : Option (List Char × List Char) :=
  match text with
  | [] => none
  | '"' :: rest => some ([], rest)
  | first :: others =>
    match read : readLetter (first :: others) with
    | none => none
    | some (letter, rest) =>
      have _shorter := readLetter_length read
      (readLetters rest).map fun found => (letter :: found.1, found.2)
termination_by text.length
decreasing_by exact readLetter_length read

/-- Sixteen bits are read as they were written. -/
theorem readUnit_digits {unit : Nat} (small : unit < 0x10000) (rest : List Char) :
    readUnit (Nat.digitChar (unit / 4096) :: Nat.digitChar (unit / 256 % 16) ::
      Nat.digitChar (unit / 16 % 16) :: Nat.digitChar (unit % 16) :: rest) = some (unit, rest) := by
  -- Four digits of four bits each make up the number.
  have whole : 4096 * (unit / 4096) + 256 * (unit / 256 % 16) + 16 * (unit / 16 % 16) + unit % 16 =
      unit := by omega
  simp only [readUnit, (hexValue_digitChar (show unit / 4096 < 16 by omega)).1,
    (hexValue_digitChar (show unit / 256 % 16 < 16 by omega)).1,
    (hexValue_digitChar (show unit / 16 % 16 < 16 by omega)).1,
    (hexValue_digitChar (show unit % 16 < 16 by omega)).1, Option.bind_eq_bind, Option.bind_some,
    Option.pure_def, whole]

/-- A letter in four digits is read by its number, which may be that of a half. -/
theorem readLetter_unit {unit : Nat} (small : unit < 0x10000) (rest : List Char) :
    readLetter (unitText unit ++ rest) =
      if unit < 0xD800 ∨ 0xE000 ≤ unit then some (Char.ofNat unit, rest)
      else if unit < 0xDC00 then readSecond unit rest
      else none := by
  show readEscaped (_ :: _ :: _ :: _ :: rest) = _
  rw [readEscaped, readUnit_digits small, Option.bind_eq_bind, Option.bind_some]

/-- A second half is read with the first one in front of it. -/
theorem readSecond_unit {first second : Nat} (low : 0xDC00 ≤ second) (high : second < 0xE000)
    (rest : List Char) : readSecond first (unitText second ++ rest) =
      some (Char.ofNat (0x10000 + 1024 * (first - 0xD800) + (second - 0xDC00)), rest) := by
  have small : second < 0x10000 := by omega
  simp only [unitText, List.cons_append, List.nil_append, readSecond, readUnit_digits small,
    Option.bind_eq_bind, Option.bind_some]
  rw [if_pos ⟨low, high⟩]

/-- The number of a letter is that of no half. -/
theorem toNat_letter (letter : Char) : letter.toNat < 0xD800 ∨
    (0xE000 ≤ letter.toNat ∧ letter.toNat < 0x110000) := by
  rcases letter.valid with below | ⟨above, within⟩
  · exact .inl below
  · exact .inr ⟨above, within⟩

/-- A letter with an escape of its own is read as it was written. -/
theorem readLetter_short {letter short : Char} (named : shortEscapes.lookup letter = some short)
    (rest : List Char) : readLetter ('\\' :: short :: rest) = some (letter, rest) := by
  -- No short escape is the letter in front of digits, and each stands for one letter.
  have each : ∀ row ∈ shortEscapes, row.2 ≠ 'u' ∧ readShort row.2 = some row.1 := by decide
  obtain ⟨front, back, split, -⟩ := List.lookup_eq_some_iff.mp named
  obtain ⟨other, known⟩ := each (letter, short) (by simp [split])
  rw [readLetter, known, Option.map_some]
  exact other

/-- A letter is read as it was written. -/
theorem readLetter_escape (letter : Char) (rest : List Char) :
    readLetter (escapeLetter letter ++ rest) = some (letter, rest) := by
  rw [escapeLetter]
  cases named : shortEscapes.lookup letter with
  | some short => exact readLetter_short named rest
  | none =>
    by_cases printable : isPrintable letter = true
    · -- A printable letter stands for itself, since it is no backslash.
      have other : letter ≠ '\\' := by
        rintro rfl
        cases named
      rw [if_pos printable, List.singleton_append, readLetter]
      · rw [if_neg (Char.not_lt.mpr (of_decide_eq_true printable).1)]
      · exact fun _ same _ => absurd same other
      · exact fun _ _ same _ => absurd same other
    · rw [if_neg printable]
      -- No letter has the number of a half.
      have number := toNat_letter letter
      by_cases small : letter.toNat < 0x10000
      · have whole : letter.toNat < 0xD800 ∨ 0xE000 ≤ letter.toNat := by omega
        rw [if_pos small, readLetter_unit small, if_pos whole, Char.ofNat_toNat]
      · -- Beyond sixteen bits there are twenty, ten of them in each half.
        have first : 0xD800 + (letter.toNat - 0x10000) / 1024 < 0xDC00 := by omega
        have again : 0x10000 + 1024 * (0xD800 + (letter.toNat - 0x10000) / 1024 - 0xD800) +
            (0xDC00 + (letter.toNat - 0x10000) % 1024 - 0xDC00) = letter.toNat := by omega
        rw [if_neg small, List.append_assoc, readLetter_unit (by omega), if_neg (by omega),
          if_pos first, readSecond_unit (by omega) (by omega), again, Char.ofNat_toNat]

/-- What is written for a letter is never the quote that would end the string. -/
theorem escapeLetter_front (letter : Char) :
    ∃ first others, escapeLetter letter = first :: others ∧ first ≠ '"' := by
  rw [escapeLetter]
  cases named : shortEscapes.lookup letter with
  | some short => exact ⟨_, _, rfl, by decide⟩
  | none =>
    dsimp only
    split
    · refine ⟨_, _, rfl, ?_⟩
      -- The quote has an escape of its own.
      rintro rfl
      cases named
    · split
      · exact ⟨_, _, rfl, by decide⟩
      · exact ⟨_, _, rfl, by decide⟩

/-- A written letter is the first that is read, and the others follow it. -/
theorem readLetters_escape (letter : Char) (rest : List Char) :
    readLetters (escapeLetter letter ++ rest) =
      (readLetters rest).map fun found => (letter :: found.1, found.2) := by
  -- The letter is read by itself, and does not end the string.
  have whole := readLetter_escape letter rest
  obtain ⟨first, others, written, other⟩ := escapeLetter_front letter
  rw [written, List.cons_append] at whole ⊢
  rw [readLetters]
  · split
    · rename_i none
      rw [whole] at none
      cases none
    · rename_i found
      rw [whole] at found
      cases found
      rfl
  · exact other

/-- A string in quotes. -/
def stringText (letters : List Char) : List Char :=
  '"' :: letters.flatMap escapeLetter ++ ['"']

/-- The letters of a string are read as they were written. -/
theorem readLetters_written (letters rest : List Char) :
    readLetters (letters.flatMap escapeLetter ++ '"' :: rest) = some (letters, rest) := by
  -- The induction is on the letters.
  induction letters with
  | nil =>
    rw [List.flatMap_nil, List.nil_append, readLetters]
  | cons letter letters ih =>
    rw [List.flatMap_cons, List.append_assoc, readLetters_escape, ih, Option.map_some]

/-- A letter of sixteen bits is written in printable letters. -/
theorem unitText_printable {unit : Nat} (small : unit < 0x10000) :
    (unitText unit).all isPrintable = true := by
  -- Each of the four digits is a printable letter.
  have digit : ∀ value < 16, isPrintable (Nat.digitChar value) = true := by decide
  have first := digit (unit / 4096) (by omega)
  have second := digit (unit / 256 % 16) (by omega)
  have third := digit (unit / 16 % 16) (by omega)
  have fourth := digit (unit % 16) (by omega)
  simp only [unitText, List.all_cons, first, second, third, fourth]
  decide

/-- Every letter is written in printable letters. -/
theorem escapeLetter_printable (letter : Char) : (escapeLetter letter).all isPrintable = true := by
  -- The short escapes are printable.
  have each : ∀ row ∈ shortEscapes, ['\\', row.2].all isPrintable = true := by decide
  have number := toNat_letter letter
  rw [escapeLetter]
  cases named : shortEscapes.lookup letter with
  | some short =>
    obtain ⟨front, back, split, -⟩ := List.lookup_eq_some_iff.mp named
    exact each (letter, short) (by simp [split])
  | none =>
    dsimp only
    split
    · rename_i printable
      rw [List.all_cons, printable, List.all_nil, Bool.and_self]
    · split
      · rename_i small
        exact unitText_printable small
      · rw [List.all_append, unitText_printable (by omega), unitText_printable (by omega),
          Bool.and_self]

/-- All letters of a written string are printable ones. -/
theorem stringText_printable (letters : List Char) :
    (stringText letters).all isPrintable = true := by
  have inside : (letters.flatMap escapeLetter).all isPrintable = true := by
    rw [List.all_flatMap, List.all_eq_true]
    exact fun letter _ => escapeLetter_printable letter
  have quote : isPrintable '"' = true := by decide
  simp only [stringText, List.cons_append, List.all_cons, List.all_append, inside, quote,
    List.all_nil, Bool.and_self]

end Letters

end Wire
