import Zmux.Wire.Bytes

/-! Texts with separators, and the paths of files: what is split is joined again, and the other way round. -/

namespace Wire

/-- The parts of a text between separators, of which there is at least one. -/
def splitText (separator : Char) (text : String) : List String :=
  (text.toList.splitOn separator).map String.ofList

/-- Parts with a separator between them. -/
def joinText (separator : Char) (parts : List String) : String :=
  String.ofList ([separator].intercalate (parts.map String.toList))

/-- A text without a character. -/
def FreeOf (letter : Char) (text : String) : Prop := letter ∉ text.toList

instance (letter : Char) (text : String) : Decidable (FreeOf letter text) :=
  inferInstanceAs (Decidable (letter ∉ text.toList))

section Separated

variable {separator : Char} {text : String} {parts others : List String}

/-- A text has one part at least. -/
theorem splitText_ne_nil : splitText separator text ≠ [] := by
  rw [splitText, Ne, List.map_eq_nil_iff]
  exact List.splitOn_ne_nil separator text.toList

/-- The parts of a text are joined to the text. -/
theorem joinText_splitText : joinText separator (splitText separator text) = text := by
  rw [joinText, splitText, List.map_map]
  have same : String.toList ∘ String.ofList = id := by
    funext letters
    exact String.toList_ofList
  rw [same, List.map_id, List.intercalate_splitOn, String.ofList_toList]

/-- Joined parts are split again, if they are free of the separator. -/
theorem splitText_joinText (free : ∀ part ∈ parts, FreeOf separator part) (some : parts ≠ []) :
    splitText separator (joinText separator parts) = parts := by
  rw [splitText, joinText, String.toList_ofList, List.splitOn_intercalate, List.map_map]
  · have same : String.ofList ∘ String.toList = id := by
      funext part
      exact String.ofList_toList
    rw [same, List.map_id]
  · rw [List.forall_mem_map]
    exact free
  · rw [Ne, List.map_eq_nil_iff]
    exact some

/-- Parts that are free of the separator are known from the text they are joined to. -/
theorem joinText_injective (free : ∀ part ∈ parts, FreeOf separator part) (some : parts ≠ [])
    (freed : ∀ part ∈ others, FreeOf separator part) (more : others ≠ [])
    (same : joinText separator parts = joinText separator others) : parts = others := by
  rw [← splitText_joinText free some, same, splitText_joinText freed more]

/-- A part that begins with the separator is joined as two parts. -/
theorem joinText_split_last {last : String} :
    joinText separator (parts ++ [String.ofList (separator :: last.toList)]) =
      joinText separator (parts ++ ["", last]) := by
  have letters : ∀ fronts : List (List Char), [separator].intercalate (fronts ++
      [separator :: last.toList]) = [separator].intercalate (fronts ++ [[], last.toList]) := by
    intro fronts
    -- The induction is on the parts in front, which are joined alike on both sides.
    induction fronts with
    | nil => simp
    | cons front fronts ih =>
      have filled : ∀ rest : List (List Char), rest ≠ [] → fronts ++ rest ≠ [] := by
        intro rest some
        simp [some]
      rw [List.cons_append, List.cons_append, List.intercalate_cons_of_ne_nil (filled _ (by simp)),
        List.intercalate_cons_of_ne_nil (filled _ (by simp)), ih]
  rw [joinText, joinText, List.map_append, List.map_append]
  exact congrArg String.ofList (by simpa using letters (parts.map String.toList))

/-- The letters of a joined text are the separators and the letters of its parts. -/
theorem mem_joinText {letter : Char} (other : letter ≠ separator) :
    letter ∈ (joinText separator parts).toList ↔ ∃ part ∈ parts, letter ∈ part.toList := by
  rw [joinText, String.toList_ofList]
  -- The induction is on the parts, each of which may be the last one.
  induction parts with
  | nil => simp
  | cons part parts ih =>
    cases parts with
    | nil => simp
    | cons next parts =>
      rw [List.map_cons, List.map_cons, List.intercalate_cons_cons, List.mem_append,
        List.mem_append, List.mem_singleton, ← List.map_cons, ih]
      simp [other]

/-- The parts of a text are free of the separator. -/
theorem splitText_free : ∀ part ∈ splitText separator text, FreeOf separator part := by
  have each : ∀ letters : List Char, ∀ part ∈ letters.splitOn separator, separator ∉ part := by
    intro letters
    -- The induction is on the letters, each of which ends a part or belongs to it.
    induction letters with
    | nil => simp
    | cons letter letters ih =>
      rw [List.splitOn_cons_eq_if_modifyHead]
      split
      · rw [List.forall_mem_cons]
        exact ⟨List.not_mem_nil, ih⟩
      · rename_i other
        cases split : letters.splitOn separator with
        | nil => exact absurd split (List.splitOn_ne_nil separator letters)
        | cons first rest =>
          rw [split, List.forall_mem_cons] at ih
          rw [List.modifyHead_cons, List.forall_mem_cons, List.mem_cons, not_or]
          refine ⟨⟨?_, ih.1⟩, ih.2⟩
          intro same
          exact other (beq_iff_eq.mpr same.symm)
  rw [splitText, List.forall_mem_map]
  intro part member
  rw [FreeOf, String.toList_ofList]
  exact each text.toList part member

/-- A text is free of another letter when its parts are. -/
theorem freeOf_parts {letter : Char} (other : letter ≠ separator) :
    FreeOf letter text ↔ ∀ part ∈ splitText separator text, FreeOf letter part := by
  -- The letters of the text are those of its parts, and separators.
  have letters := @mem_joinText separator (splitText separator text) letter other
  rw [joinText_splitText] at letters
  rw [FreeOf, letters]
  simp only [not_exists, not_and, FreeOf]

end Separated

/-- A path as its parts, which begins at the root when it is absolute. -/
structure Path where
  absolute : Bool
  parts : List String
  deriving DecidableEq, Repr

namespace Path

/-- The parts that a text names, where an empty part and a dot name nothing. -/
def named (piece : String) : List String :=
  (splitText '/' piece).filter fun part => part ≠ "" ∧ part ≠ "."

/-- What a text names in a directory, and what it names from the root if it begins there. -/
def joinpath (path : Path) (piece : String) : Path :=
  if piece.toList.head? = some '/' then ⟨true, named piece⟩
  else ⟨path.absolute, path.parts ++ named piece⟩

/-- A path as it is seen from one above it. -/
def relativeTo (path base : Path) : Option Path :=
  if base.absolute = path.absolute ∧ base.parts <+: path.parts then
    some ⟨false, path.parts.drop base.parts.length⟩
  else none

/-- A path as a text. -/
def text (path : Path) : String := (if path.absolute then "/" else "") ++ joinText '/' path.parts

/-- A name without what stands behind its last dot, if something stands on both sides of it. -/
def stem (name : String) : String :=
  let back := name.toList.reverse
  match back.dropWhile fun letter => letter ≠ '.' with
  | [] => name
  | _ :: front =>
    if front ≠ [] ∧ (back.takeWhile fun letter => letter ≠ '.') ≠ [] then String.ofList front.reverse
    else name

/-- A path whose last name is without its suffix. -/
def withoutSuffix (path : Path) : Path :=
  ⟨path.absolute, path.parts.dropLast ++ path.parts.getLast?.toList.map stem⟩

variable {path base : Path} {piece : String}

/-- A text without a separator names itself, unless it is empty or a dot. -/
theorem joinpath_plain (plain : FreeOf '/' piece) (dot : piece ≠ ".") :
    path.joinpath piece = ⟨path.absolute, path.parts ++ if piece = "" then [] else [piece]⟩ := by
  -- The text has one part, which is itself.
  have whole : splitText '/' piece = [piece] := by
    rw [splitText, List.splitOn_eq_singleton plain, List.map_singleton, String.ofList_toList]
  have first : piece.toList.head? ≠ some '/' := by
    intro same
    exact plain (List.mem_of_head? same)
  rw [joinpath, if_neg first, named, whole]
  by_cases empty : piece = "" <;> simp [empty, dot]

/-- A part of a path, which names something and has no separator in it. -/
def Proper (part : String) : Prop := FreeOf '/' part ∧ part ≠ "" ∧ part ≠ "."

instance (part : String) : Decidable (Proper part) :=
  inferInstanceAs (Decidable (FreeOf '/' part ∧ part ≠ "" ∧ part ≠ "."))

/-- What a text names are proper parts. -/
theorem named_proper : ∀ part ∈ named piece, Proper part := by
  intro part member
  obtain ⟨listed, kept⟩ := List.mem_filter.mp member
  exact ⟨splitText_free part listed, of_decide_eq_true kept⟩

/-- However texts are joined to a path, what is behind its parts or in their place is proper. -/
theorem joinpath_proper (pieces : List String) (front back : List String)
    (held : path.parts = front ++ back ∨ path.parts = back)
    (proper : ∀ part ∈ back, Proper part) :
    ∃ rest, (∀ part ∈ rest, Proper part) ∧
      ((pieces.foldl joinpath path).parts = front ++ rest ∨
        (pieces.foldl joinpath path).parts = rest) := by
  -- The induction is on the texts, each of which is joined behind or begins anew at the root.
  induction pieces generalizing path back with
  | nil => exact ⟨back, proper, held⟩
  | cons piece pieces ih =>
    rw [List.foldl_cons]
    by_cases first : piece.toList.head? = some '/'
    · have joined : path.joinpath piece = ⟨true, named piece⟩ := by rw [joinpath, if_pos first]
      exact ih (named piece) (.inr (congrArg parts joined)) named_proper
    · have joined : path.joinpath piece = ⟨path.absolute, path.parts ++ named piece⟩ := by
        rw [joinpath, if_neg first]
      refine ih (back ++ named piece) ?_ ?_
      · rw [joined, ← List.append_assoc]
        exact held.imp (fun same => congrArg (· ++ named piece) same)
          (fun same => congrArg (· ++ named piece) same)
      · rw [List.forall_mem_append]
        exact ⟨proper, named_proper⟩

/-- Proper parts that are joined do not begin at the root. -/
theorem joinText_relative {parts : List String} (proper : ∀ part ∈ parts, Proper part) :
    (joinText '/' parts).toList.head? ≠ some '/' := by
  cases parts with
  | nil => simp [joinText]
  | cons part parts =>
    obtain ⟨free, some, -⟩ := proper part List.mem_cons_self
    cases letters : part.toList with
    | nil => exact absurd (String.toList_eq_nil_iff.mp letters) some
    | cons letter others =>
      -- The first letter is that of the first part, which is no separator.
      have other : letter ≠ '/' := by
        rintro rfl
        exact free (by rw [letters]; exact List.mem_cons_self)
      rw [joinText, String.toList_ofList, List.map_cons, letters]
      cases parts with
      | nil => simpa using other
      | cons next parts => simpa [List.intercalate_cons_cons] using other

/-- Proper parts are named by their joined text. -/
theorem named_joinText {parts : List String} (proper : ∀ part ∈ parts, Proper part) :
    named (joinText '/' parts) = parts := by
  cases parts with
  | nil => decide
  | cons part parts =>
    rw [named, splitText_joinText (fun part member => (proper part member).1) (by simp),
      List.filter_eq_self]
    exact fun part member => decide_eq_true (proper part member).2

/-- A path with proper parts is named by its text. -/
theorem joinpath_text (relative : path.absolute = false) (proper : ∀ part ∈ path.parts, Proper part) :
    joinpath ⟨false, []⟩ path.text = path := by
  obtain ⟨absolute, parts⟩ := path
  subst relative
  -- A relative path is written as its parts alone.
  have text : (⟨false, parts⟩ : Path).text = joinText '/' parts := by simp [Path.text]
  rw [text, joinpath, if_neg (joinText_relative proper), named_joinText proper, List.nil_append]

/-- A suffix without a dot is left out, unless the name is nothing else. -/
theorem stem_suffix {name suffix : String} (free : FreeOf '.' suffix) (some : suffix ≠ "") :
    stem (name ++ "." ++ suffix) = if name = "" then "." ++ suffix else name := by
  have letters : (name ++ "." ++ suffix).toList.reverse =
      suffix.toList.reverse ++ '.' :: name.toList.reverse := by
    simp [String.toList_append]
  -- No letter of the suffix is a dot, so the last dot is the one in front of it.
  have others : ∀ letter ∈ suffix.toList.reverse, decide (letter ≠ '.') = true := by
    intro letter member
    rw [decide_eq_true_eq]
    rintro rfl
    exact free (List.mem_reverse.mp member)
  have front : (suffix.toList.reverse ++ '.' :: name.toList.reverse).dropWhile
      (fun letter => letter ≠ '.') = '.' :: name.toList.reverse := by
    rw [List.dropWhile_append_of_pos others]
    rfl
  have behind : (suffix.toList.reverse ++ '.' :: name.toList.reverse).takeWhile
      (fun letter => letter ≠ '.') = suffix.toList.reverse := by
    rw [List.takeWhile_append_of_pos others]
    simp
  have filled : suffix.toList ≠ [] := fun empty => some (String.toList_eq_nil_iff.mp empty)
  rw [stem, letters]
  simp only [front, behind]
  by_cases empty : name = ""
  · simp [empty]
  · have named : name.toList ≠ [] := fun same => empty (String.toList_eq_nil_iff.mp same)
    simp [empty, named, filled, String.ofList_toList]

/-- What a name is cut to has no other letters. -/
theorem mem_stem {name : String} {letter : Char} (listed : letter ∈ (stem name).toList) :
    letter ∈ name.toList := by
  -- The letters in front of the last dot are some of those of the name.
  have shorter := List.dropWhile_sublist (l := name.toList.reverse) fun letter => decide (letter ≠ '.')
  revert listed
  rw [stem]
  split
  · exact id
  · rename_i front cut
    split
    · intro listed
      rw [String.toList_ofList, List.mem_reverse] at listed
      rw [cut] at shorter
      exact List.mem_reverse.mp (shorter.subset (List.mem_cons_of_mem _ listed))
    · exact id

end Path

end Wire
