import Zmux.Wire.Paths

/-! Texts as lines, which end wherever a letter breaks the line. -/

namespace Wire

/-- The letters that end a line. -/
def isLineBreak (letter : Char) : Bool :=
  letter ∈ ['\n', '\r', '\x0b', '\x0c', '\x1c', '\x1d', '\x1e', '\x85', '\u2028', '\u2029']

/-- The lines of a text, where nothing behind the last break is no line. -/
def splitLines : List Char → List (List Char)
  | [] => []
  -- These two letters end one line.
  | '\r' :: '\n' :: rest => [] :: splitLines rest
  | letter :: rest =>
    if isLineBreak letter then [] :: splitLines rest
    else match splitLines rest with
      | [] => [[letter]]
      | line :: lines => (letter :: line) :: lines

variable {line rest : List Char}

/-- A line break in front ends an empty line. -/
theorem splitLines_break : splitLines ('\n' :: rest) = [] :: splitLines rest := by
  rw [splitLines]
  · rfl
  · exact fun _ same => absurd same (by decide)

/-- A line that breaks nowhere is split off at the break behind it. -/
theorem splitLines_line (whole : ∀ letter ∈ line, isLineBreak letter = false) :
    splitLines (line ++ '\n' :: rest) = line :: splitLines rest := by
  induction line with
  | nil => exact splitLines_break
  | cons letter line ih =>
    rw [List.forall_mem_cons] at whole
    rw [List.cons_append, splitLines, ih whole.2, whole.1]
    · rfl
    · rintro _ rfl
      exact absurd whole.1 (by decide)

/-- Lines with a break behind each of them. -/
theorem splitLines_flatMap {lines : List (List Char)}
    (whole : ∀ line ∈ lines, ∀ letter ∈ line, isLineBreak letter = false) :
    splitLines (lines.flatMap fun line => line ++ ['\n']) = lines := by
  induction lines with
  | nil => rfl
  | cons line lines ih =>
    rw [List.forall_mem_cons] at whole
    rw [List.flatMap_cons, List.append_assoc, List.singleton_append, splitLines_line whole.1,
      ih whole.2]

/-- Breaks between lines and one at the end are breaks behind each of them. -/
theorem intercalate_break {lines : List (List Char)} (some_line : lines ≠ []) :
    ['\n'].intercalate lines ++ ['\n'] = lines.flatMap fun line => line ++ ['\n'] := by
  induction lines with
  | nil => exact absurd rfl some_line
  | cons line lines ih =>
    cases lines with
    | nil => simp
    | cons next lines =>
      rw [List.intercalate_cons_cons, List.flatMap_cons, ← ih (by simp), List.append_assoc,
        List.append_assoc]

end Wire
