import Zmux.Codec.Render
import Zmux.Wire.Regions

/-! Documents that are rendered again: nothing is lost outside of their regions, and nothing piles up in them. -/

namespace Zmux

open Wire

section Pieces

variable {text tail piece p : List Char} {ps : List (List Char)}

/-- A text cut before each letter that marks begin with: what is in front of them all, and the pieces behind. -/
def cutPieces : List Char → List Char × List (List Char)
  | [] => ([], [])
  | c :: text =>
    if c = '<' then ([], (cutPieces text).1 :: (cutPieces text).2)
    else (c :: (cutPieces text).1, (cutPieces text).2)

/-- Pieces of a text one behind the other. -/
def spread (pieces : List (List Char)) : List Char := pieces.flatMap fun piece => '<' :: piece

/-- The first piece stands behind a letter of its own. -/
theorem spread_cons : spread (p :: ps) = '<' :: (p ++ spread ps) := rfl

/-- Pieces and others behind them are spread one after the other. -/
theorem spread_append (front back : List (List Char)) :
    spread (front ++ back) = spread front ++ spread back := List.flatMap_append

/-- A text that is cut is what is in front of the pieces, and the pieces. -/
theorem spread_cutPieces : (cutPieces text).1 ++ spread (cutPieces text).2 = text := by
  -- The induction is on the text, whose first letter begins a piece or not.
  induction text with
  | nil => rfl
  | cons c text ih =>
    rw [cutPieces]
    split
    · rename_i first
      rw [List.nil_append, spread_cons, ih, first]
    · rw [List.cons_append, ih]

/-- No piece has the letter that marks begin with, and neither has what is in front. -/
theorem cutPieces_free : '<' ∉ (cutPieces text).1 ∧ ∀ piece ∈ (cutPieces text).2, '<' ∉ piece := by
  -- The induction is on the text, whose first letter begins a piece or not.
  induction text with
  | nil => simp [cutPieces]
  | cons c text ih =>
    rw [cutPieces]
    split
    · exact ⟨List.not_mem_nil, List.forall_mem_cons.mpr ih⟩
    · rename_i other
      rw [List.mem_cons, not_or]
      exact ⟨⟨Ne.symm other, ih.1⟩, ih.2⟩

/-- The rest of a mark stands at the head of a piece, and goes no further. -/
theorem isPrefix_spread (free : '<' ∉ tail) : tail <+: piece ++ spread ps ↔ tail <+: piece := by
  -- The induction is on the rest of the mark, which ends before the next piece begins.
  induction tail generalizing piece with
  | nil => simp
  | cons c tail ih =>
    rw [List.mem_cons, not_or] at free
    cases piece with
    | nil =>
      cases ps with
      | nil => rfl
      | cons p ps =>
        rw [spread_cons, List.nil_append, List.cons_prefix_cons]
        simp [Ne.symm free.1]
    | cons first piece =>
      rw [List.cons_append, List.cons_prefix_cons, List.cons_prefix_cons, ih free.2]

end Pieces

section Marks

variable {name content : String} {text piece p : List Char} {ps : List (List Char)}

/-- The name between the two parts of a mark, where a piece begins with one. -/
def nameBetween (front back : String) (piece : List Char) : Option String :=
  if front.toList <+: piece then
    let rest := piece.drop front.toList.length
    if back.toList <+: rest.dropWhile (fun letter => letter ≠ ' ') then
      some (String.ofList (rest.takeWhile fun letter => letter ≠ ' '))
    else none
  else none

/-- The mark that a piece begins with: of which name, and whether it opens a region or closes one. -/
def markOf (piece : List Char) : Option (String × Bool) :=
  match nameBetween "!-- BEGIN GENERATED: " " -->\n" piece with
  | some name => some (name, true)
  | none => (nameBetween "!-- END GENERATED: " " -->" piece).map fun name => (name, false)

/-- A name that stands for itself between the marks. -/
def MarkerName (name : String) : Prop := ∀ letter ∈ name.toList, letter.isAlpha = true ∨ letter = '_'

instance (name : String) : Decidable (MarkerName name) :=
  List.decidableBAll (fun letter : Char => letter.isAlpha = true ∨ letter = '_') name.toList

/-- No other letter is in a name. -/
theorem MarkerName.free {letter : Char} (named : MarkerName name)
    (other : ¬ (letter.isAlpha = true ∨ letter = '_')) : letter ∉ name.toList :=
  fun member => other (named letter member)

/-- A piece with a name in it begins with the first part of the mark. -/
theorem front_of_nameBetween {front back : String} (found : nameBetween front back piece = some name) :
    front.toList <+: piece := by
  rw [nameBetween] at found
  split at found
  · assumption
  · cases found

/-- A name without a blank is found between the parts of its mark. -/
theorem nameBetween_eq_some {front back : String} (named : MarkerName name)
    (blank : ∃ rest, back.toList = ' ' :: rest) :
    nameBetween front back piece = some name ↔ (front ++ name ++ back).toList <+: piece := by
  obtain ⟨more, starts⟩ := blank
  rw [nameBetween, String.toList_append, String.toList_append, List.append_assoc]
  constructor
  · intro found
    split at found
    · rename_i opens
      obtain ⟨rest, rfl⟩ := opens
      rw [List.drop_left] at found
      dsimp only at found
      split at found
      · rename_i ends
        rw [Option.some.injEq] at found
        subst found
        rw [List.prefix_append_right_inj, String.toList_ofList]
        -- The letters up to the blank are the name, and the others begin with the second part.
        have parted := @List.takeWhile_append_dropWhile _ (fun letter => decide (letter ≠ ' ')) rest
        conv_rhs => rw [← parted]
        exact (List.prefix_append_right_inj _).mpr ends
      · cases found
    · cases found
  · rintro ⟨rest, rfl⟩
    -- No letter of the name is a blank, so the name ends where the second part begins.
    have each : ∀ letter ∈ name.toList, decide (letter ≠ ' ') = true := by
      intro letter member
      rw [decide_eq_true_eq]
      rintro rfl
      exact named.free (by decide) member
    have behind : (name.toList ++ (back.toList ++ rest)).dropWhile (fun letter => letter ≠ ' ') =
        back.toList ++ rest := by
      rw [List.dropWhile_append_of_pos each, starts]
      rfl
    have front : (name.toList ++ (back.toList ++ rest)).takeWhile (fun letter => letter ≠ ' ') =
        name.toList := by
      rw [List.takeWhile_append_of_pos each, starts]
      simp
    rw [List.append_assoc, List.append_assoc, if_pos (List.prefix_append _ _), List.drop_left]
    simp only [behind, front]
    rw [if_pos (List.prefix_append _ _), String.ofList_toList]

/-- A piece begins with the mark in front of a region. -/
theorem markOf_begin (named : MarkerName name) : markOf piece = some (name, true) ↔
    ("!-- BEGIN GENERATED: " ++ name ++ " -->\n").toList <+: piece := by
  rw [← nameBetween_eq_some named ⟨"-->\n".toList, by decide⟩, markOf]
  cases nameBetween "!-- BEGIN GENERATED: " " -->\n" piece with
  | some other => simp
  | none => simp

/-- A piece begins with the mark behind a region. -/
theorem markOf_end (named : MarkerName name) : markOf piece = some (name, false) ↔
    ("!-- END GENERATED: " ++ name ++ " -->").toList <+: piece := by
  rw [← nameBetween_eq_some named ⟨"-->".toList, by decide⟩, markOf]
  cases opened : nameBetween "!-- BEGIN GENERATED: " " -->\n" piece with
  | none => simp
  | some other =>
    -- No piece begins with both marks.
    have apart : nameBetween "!-- END GENERATED: " " -->" piece ≠ some name := by
      intro closed
      have fronts := List.prefix_or_prefix_of_prefix (front_of_nameBetween opened)
        (front_of_nameBetween closed)
      revert fronts
      decide
    simp [apart]

end Marks

/-- A section of a document, with a name that can stand in a mark and a content without marks. -/
structure Section where
  name : String
  content : String
  named : MarkerName name
  unmarked : ∀ piece ∈ (cutPieces (regionBody content)).2, markOf piece = none

namespace Section

/-- The name and the content that the sections of a document are given by. -/
def entry (s : Section) : String × String := (s.name, s.content)

/-- What a section writes, as pieces: the mark with the first line, and what is behind it. -/
def filling (s : Section) : Filling markOf where
  key := s.name
  opening := ("!-- BEGIN GENERATED: " ++ s.name ++ " -->\n").toList ++ (cutPieces (regionBody s.content)).1
  inner := (cutPieces (regionBody s.content)).2
  opens := (markOf_begin s.named).mpr (List.prefix_append _ _)
  plain := s.unmarked

/-- What a section writes is its mark and its content. -/
theorem spread_filling (s : Section) : spread (s.filling.opening :: s.filling.inner) =
    beginMark s.name ++ regionBody s.content := by
  rw [spread_cons, filling, beginMark, List.append_assoc, spread_cutPieces]
  rfl

/-- The letter that marks begin with is not in the rest of the mark in front of a region. -/
theorem begin_free (s : Section) : '<' ∉ ("!-- BEGIN GENERATED: " ++ s.name ++ " -->\n").toList := by
  have named := @MarkerName.free s.name '<' s.named (by decide)
  simp [String.toList_append, named]

/-- The letter that marks begin with is not in the rest of the mark behind a region. -/
theorem end_free (s : Section) : '<' ∉ ("!-- END GENERATED: " ++ s.name ++ " -->").toList := by
  have named := @MarkerName.free s.name '<' s.named (by decide)
  simp [String.toList_append, named]

/-- The letter that marks begin with is in no piece of what a section writes. -/
theorem filling_free (s : Section) :
    '<' ∉ s.filling.opening ∧ ∀ piece ∈ s.filling.inner, '<' ∉ piece := by
  obtain ⟨front, others⟩ := @cutPieces_free (regionBody s.content)
  refine ⟨?_, others⟩
  rw [filling, List.mem_append, not_or]
  exact ⟨s.begin_free, front⟩

end Section

section Regions

variable {name content : String} {text front p : List Char} {ps : List (List Char)} {s : Section}

/-- No mark begins in front of the first letter of marks. -/
theorem behindMark_front {tail : List Char} (free : '<' ∉ front) :
    behindMark ('<' :: tail) (front ++ text) = behindMark ('<' :: tail) text := by
  -- The induction is on the letters in front, none of which begins a mark.
  induction front with
  | nil => rfl
  | cons c front ih =>
    rw [List.mem_cons, not_or] at free
    rw [List.cons_append, behindMark, if_neg, ih free.2]
    simp [free.1]

/-- The first mark that ends a region is at the head of the next closing piece. -/
theorem behindMark_spread (s : Section) (free : ∀ p ∈ ps, '<' ∉ p) :
    behindMark (endMark s.name) (spread ps) = (closing markOf s.name ps).map fun found =>
      found.1.drop ("!-- END GENERATED: " ++ s.name ++ " -->").toList.length ++ spread found.2 := by
  -- The induction is on the pieces, up to the first one that closes.
  induction ps with
  | nil => rfl
  | cons p ps ih =>
    rw [List.forall_mem_cons] at free
    -- The mark is at the head of a piece when the piece begins with the rest of it.
    have here : (endMark s.name).isPrefixOf ('<' :: (p ++ spread ps)) = true ↔
        markOf p = some (s.name, false) := by
      rw [List.isPrefixOf_iff_prefix, endMark, List.cons_prefix_cons, isPrefix_spread s.end_free,
        markOf_end s.named]
      exact and_iff_right rfl
    rw [spread_cons, behindMark, closing]
    by_cases closes : markOf p = some (s.name, false)
    · have long := ((markOf_end s.named).mp closes).length_le
      rw [if_pos (here.mpr closes), if_pos closes, Option.map_some, endMark, List.length_cons,
        List.drop_succ_cons, List.drop_append_of_le_length long]
    · rw [if_neg (fun marked => closes (here.mp marked)), if_neg closes, ← ih free.2, endMark,
        behindMark_front free.1]

/-- A region begins at the head of an opening piece, if it is closed behind it. -/
theorem regionHere_spread (s : Section) (free : ∀ p ∈ ps, '<' ∉ p) (first : '<' ∉ p) :
    regionHere s.name ('<' :: (p ++ spread ps)) =
      if markOf p = some (s.name, true) then (closing markOf s.name ps).map fun found =>
        found.1.drop ("!-- END GENERATED: " ++ s.name ++ " -->").toList.length ++ spread found.2
      else none := by
  -- The mark is at the head of a piece when the piece begins with the rest of it.
  have here : (beginMark s.name).isPrefixOf ('<' :: (p ++ spread ps)) = true ↔
      markOf p = some (s.name, true) := by
    rw [List.isPrefixOf_iff_prefix, beginMark, List.cons_prefix_cons, isPrefix_spread s.begin_free,
      markOf_begin s.named]
    exact and_iff_right rfl
  rw [regionHere]
  by_cases opens : markOf p = some (s.name, true)
  · -- Behind the mark no other one begins before the next piece.
    have marked := (markOf_begin s.named).mp opens
    have rest : '<' ∉ p.drop ("!-- BEGIN GENERATED: " ++ s.name ++ " -->\n").toList.length :=
      fun member => first (List.mem_of_mem_drop member)
    rw [if_pos (here.mpr opens), if_pos opens, ← behindMark_spread s free, beginMark, List.length_cons,
      List.drop_succ_cons, List.drop_append_of_le_length marked.length_le, endMark,
      behindMark_front rest]
  · rw [if_neg (fun marked => opens (here.mp marked)), if_neg opens]

/-- No region begins at any other letter. -/
theorem regionHere_other {c : Char} (other : c ≠ '<') : regionHere name (c :: text) = none := by
  rw [regionHere, if_neg]
  simp [beginMark, Ne.symm other]

/-- No region begins in front of the first piece. -/
theorem searchRegion_front (free : '<' ∉ front) :
    searchRegion name (front ++ text) = searchRegion name text := by
  -- The induction is on the letters in front.
  induction front with
  | nil => rfl
  | cons c front ih =>
    rw [List.mem_cons, not_or] at free
    rw [List.cons_append, searchRegion, regionHere_other (Ne.symm free.1), ih free.2]
    rfl

/-- A text has a region of a section when its pieces do. -/
theorem searchRegion_spread (s : Section) (free : ∀ p ∈ ps, '<' ∉ p) :
    searchRegion s.name (spread ps) = true ↔ HasRegion markOf s.name ps := by
  -- The induction is on the pieces, each of which may begin a region.
  induction ps with
  | nil => simp [searchRegion, spread, HasRegion]
  | cons p ps ih =>
    rw [List.forall_mem_cons] at free
    rw [spread_cons, searchRegion, Bool.or_eq_true, searchRegion_front free.1, ih free.2, HasRegion,
      regionHere_spread s free.2 free.1]
    apply or_congr_left
    split
    · rename_i opens
      cases closing markOf s.name ps <;> simp [opens]
    · rename_i other
      simp [other]

/-- A letter that begins no region is left as it is. -/
theorem subRegions_other {c : Char} (other : regionHere name (c :: text) = none) :
    subRegions name content (c :: text) = c :: subRegions name content text := by
  rw [subRegions]
  split
  · rename_i found
    rw [other] at found
    cases found
  · rfl

/-- A region is written anew, and the search goes on behind it. -/
theorem subRegions_found {c : Char} {back : List Char}
    (found : regionHere name (c :: text) = some back) : subRegions name content (c :: text) =
      beginMark name ++ regionBody content ++ endMark name ++ subRegions name content back := by
  rw [subRegions]
  split
  · rename_i again
    rw [found] at again
    cases again
    rfl
  · rename_i none
    rw [found] at none
    cases none

/-- What is in front of the first piece is left as it is. -/
theorem subRegions_front (free : '<' ∉ front) :
    subRegions name content (front ++ text) = front ++ subRegions name content text := by
  -- The induction is on the letters in front.
  induction front with
  | nil => rfl
  | cons c front ih =>
    rw [List.mem_cons, not_or] at free
    rw [List.cons_append, subRegions_other (regionHere_other (Ne.symm free.1)), ih free.2,
      List.cons_append]

/-- To write the regions of a text anew is to fill those of its pieces. -/
theorem subRegions_spread (s : Section) : ∀ ps, (∀ p ∈ ps, '<' ∉ p) →
    subRegions s.name s.content (spread ps) = spread (fill s.filling ps) := by
  intro ps
  induction ps using regionInduction markOf s.name with
  | nil =>
    intro _
    rw [fill_nil, spread, List.flatMap_nil, subRegions]
  | other p ps other ih =>
    intro free
    rw [List.forall_mem_cons] at free
    -- No region begins at this piece.
    have here := regionHere_spread s free.2 free.1
    rw [if_neg other] at here
    rw [spread_cons, subRegions_other here, subRegions_front free.1, ih free.2, fill_other other,
      spread_cons]
  | unclosed p ps opens unclosed ih =>
    intro free
    rw [List.forall_mem_cons] at free
    have here := regionHere_spread s free.2 free.1
    rw [if_pos opens, closing_eq_none.mpr unclosed, Option.map_none] at here
    -- The mark is never closed, so nothing behind it is written over.
    have whole : fill s.filling (p :: ps) = p :: ps :=
      fill_unclosed (List.forall_mem_cons.mpr ⟨by simp [opens], unclosed⟩)
    have rest : fill s.filling ps = ps := fill_unclosed unclosed
    rw [spread_cons, subRegions_other here, subRegions_front free.1, ih free.2, whole, rest,
      spread_cons]
  | region p inner c rest opens closes others ih =>
    intro free
    rw [List.forall_mem_cons, List.forall_mem_append, List.forall_mem_cons] at free
    obtain ⟨first, inside, closed, later⟩ := free
    -- The region ends at the first piece that closes, and is filled up to it.
    have found : closing markOf s.name (inner ++ c :: rest) = some (c, rest) :=
      closing_eq_some.mpr ⟨inner, rfl, closes, others⟩
    have here := @regionHere_spread p (inner ++ c :: rest) s
      (List.forall_mem_append.mpr ⟨inside, List.forall_mem_cons.mpr ⟨closed, later⟩⟩) first
    rw [if_pos opens, found, Option.map_some] at here
    -- What is left of the closing piece is kept, and has no mark in it.
    obtain ⟨behind, split⟩ := (markOf_end s.named).mp closes
    have kept : c.drop ("!-- END GENERATED: " ++ s.name ++ " -->").toList.length = behind := by
      rw [← split, List.drop_left]
    have free : '<' ∉ behind := by
      intro member
      rw [← split] at closed
      exact closed (List.mem_append_right _ member)
    rw [kept] at here
    rw [spread_cons, subRegions_found here, subRegions_front free, ih later,
      fill_region opens closes others, spread_append, s.spread_filling, spread_cons, ← split, endMark]
    simp only [List.append_assoc, List.cons_append]

end Regions

section Documents

variable {sections others : List Section} {text out : String} {front : List Char}
  {ps : List (List Char)}

/-- Each section finds a region of its name when it is its turn. -/
def Found : List Section → List (List Char) → Prop
  | [], _ => True
  | s :: sections, ps => HasRegion markOf s.name ps ∧ Found sections (fill s.filling ps)

/-- The letter that marks begin with is in no piece after a section was written either. -/
theorem fill_free {s : Section} (free : ∀ p ∈ ps, '<' ∉ p) : ∀ p ∈ fill s.filling ps, '<' ∉ p := by
  intro p member
  -- A piece was there before, or is one of those that the section writes.
  rcases mem_fill ps member with kept | rfl | inside
  · exact free p kept
  · exact s.filling_free.1
  · exact s.filling_free.2 p inside

/-- The letter that marks begin with is in no piece after all sections were written either. -/
theorem fillAll_free (free : ∀ p ∈ ps, '<' ∉ p) :
    ∀ p ∈ fillAll (sections.map Section.filling) ps, '<' ∉ p := by
  -- The induction is on the sections.
  induction sections generalizing ps with
  | nil => exact free
  | cons s sections ih => exact ih (fill_free free)

/-- A document is written anew where each section is found, and the first one that is not is reported. -/
theorem fillMarkers_spread (free : '<' ∉ front) (others : ∀ p ∈ ps, '<' ∉ p) :
    (Found sections ps ∧ fillMarkers (String.ofList (front ++ spread ps)) (sections.map Section.entry) =
      .ok (String.ofList (front ++ spread (fillAll (sections.map Section.filling) ps)))) ∨
    (¬ Found sections ps ∧ ∃ s ∈ sections, fillMarkers (String.ofList (front ++ spread ps))
      (sections.map Section.entry) = .error (.valueError ("missing generated marker " ++ s.name))) := by
  -- The induction is on the sections, each of which is searched in what those before it left.
  induction sections generalizing ps with
  | nil => exact .inl ⟨trivial, rfl⟩
  | cons s sections ih =>
    have search : searchRegion s.name (front ++ spread ps) = true ↔ HasRegion markOf s.name ps := by
      rw [searchRegion_front free, searchRegion_spread s others]
    have next : subRegions s.name s.content (front ++ spread ps) =
        front ++ spread (fill s.filling ps) := by
      rw [subRegions_front free, subRegions_spread s ps others]
    rw [List.map_cons, Section.entry, fillMarkers, String.toList_ofList, next, Found]
    by_cases here : HasRegion markOf s.name ps
    · rw [raiseIf, if_neg (by simp [search.mpr here]), ok_bind]
      rcases ih (fill_free others) with ⟨found, written⟩ | ⟨missing, t, listed, refused⟩
      · exact .inl ⟨⟨here, found⟩, written⟩
      · exact .inr ⟨fun both => missing both.2, t, List.mem_cons_of_mem s listed, refused⟩
    · -- The first section without a region ends the run.
      have nowhere : searchRegion s.name (front ++ spread ps) = false := by
        rw [← Bool.not_eq_true, search]
        exact here
      rw [raiseIf, if_pos nowhere, error_bind]
      exact .inr ⟨fun both => here both.1, s, List.mem_cons_self, rfl⟩

/-- Fillings are named as their sections are. -/
theorem keys_filling : (sections.map Section.filling).map Filling.key = sections.map Section.name := by
  rw [List.map_map]
  rfl

/-- What is written into a text is written into its pieces. -/
theorem written_pieces (text : String)
    (written : fillMarkers text (sections.map Section.entry) = .ok out) :
    Found sections (cutPieces text.toList).2 ∧ out = String.ofList ((cutPieces text.toList).1 ++
      spread (fillAll (sections.map Section.filling) (cutPieces text.toList).2)) := by
  obtain ⟨front, others⟩ := @cutPieces_free text.toList
  have outcome := @fillMarkers_spread sections _ _ front others
  rw [spread_cutPieces, String.ofList_toList, written] at outcome
  -- The sections were found, since nothing was refused.
  rcases outcome with ⟨found, same⟩ | ⟨-, s, -, refused⟩
  · exact ⟨found, Except.ok.inj same⟩
  · cases refused

/-- Sections that are all found are written. -/
theorem fillMarkers_found (free : '<' ∉ front) (others : ∀ p ∈ ps, '<' ∉ p)
    (found : Found sections ps) :
    fillMarkers (String.ofList (front ++ spread ps)) (sections.map Section.entry) =
      .ok (String.ofList (front ++ spread (fillAll (sections.map Section.filling) ps))) := by
  rcases @fillMarkers_spread sections _ _ free others with ⟨-, written⟩ | ⟨missing, -⟩
  · exact written
  · exact absurd found missing

/-- The sections in front find their regions first, and those behind in what is left by then. -/
theorem found_append {back : List Section} : Found (sections ++ back) ps ↔
    Found sections ps ∧ Found back (fillAll (sections.map Section.filling) ps) := by
  -- The induction is on the sections in front, each of which fills its regions.
  induction sections generalizing ps with
  | nil => simp [Found, fillAll]
  | cons s sections ih =>
    rw [List.cons_append, Found, Found, ih, and_assoc]
    rfl

/-- Where all regions hold their fillings already, each section finds its own in the same text. -/
theorem found_kept (holds : ∀ f ∈ sections.map Section.filling, Holds f ps) :
    Found sections ps ↔ ∀ s ∈ sections, HasRegion markOf s.name ps := by
  -- The induction is on the sections, none of which changes the text.
  induction sections with
  | nil => simp [Found]
  | cons s sections ih =>
    rw [List.map_cons, List.forall_mem_cons] at holds
    rw [Found, fill_of_holds ps holds.1, ih holds.2, List.forall_mem_cons]

/-- A document is written for some sections, and then for the others. -/
theorem fillMarkers_append (first second : List (String × String)) (text : String) :
    fillMarkers text (first ++ second) =
      fillMarkers text first >>= fun out => fillMarkers out second := by
  -- The induction is on the sections in front, the first of which that is missing ends both sides.
  induction first generalizing text with
  | nil => rfl
  | cons entry first ih =>
    rw [List.cons_append, fillMarkers, fillMarkers]
    cases raiseIf (searchRegion entry.1 text.toList = false) _ with
    | error fault => rfl
    | ok _ => exact ih _

/-- Whether a section has a region in a text can be read off its pieces. -/
theorem searchRegion_pieces (s : Section) (free : '<' ∉ front) (others : ∀ p ∈ ps, '<' ∉ p) :
    searchRegion s.name (String.ofList (front ++ spread ps)).toList = true ↔
      HasRegion markOf s.name ps := by
  rw [String.toList_ofList, searchRegion_front free, searchRegion_spread s others]

/-- A section that was written has a region in the text as it was left by then. -/
theorem searchRegion_written {s : Section} {before : List Section} (text between : String)
    (written : fillMarkers text ((before ++ [s]).map Section.entry) = .ok between) :
    searchRegion s.name between.toList = true := by
  obtain ⟨front, free⟩ := @cutPieces_free text.toList
  obtain ⟨found, rfl⟩ := written_pieces text written
  rw [found_append] at found
  -- The region that was found for the section is filled, and so it is still there.
  have last := hasRegion_fill (f := s.filling) _ found.2.1
  have whole : fillAll ((before ++ [s]).map Section.filling) (cutPieces text.toList).2 =
      fill s.filling (fillAll (before.map Section.filling) (cutPieces text.toList).2) := by
    rw [List.map_append, fillAll, List.foldl_append]
    rfl
  rw [whole, searchRegion_pieces s front (fill_free (fillAll_free free))]
  exact last

/--
A text that was written anew is left as it is exactly when every section has a region left in it.

Otherwise the first section without one is reported as missing, and nothing else is.
It had a region when it was written, so the sections behind it have written over the only ones it had.
-/
theorem fillMarkers_again (sections : List Section) (distinct : (sections.map Section.name).Nodup)
    (text out : String) (written : fillMarkers text (sections.map Section.entry) = .ok out) :
    (checkTables (sections.map Section.entry) out = .ok [] ↔
      ∀ s ∈ sections, searchRegion s.name out.toList = true) ∧
    ∀ before s behind, sections = before ++ s :: behind →
      (∀ t ∈ before, searchRegion t.name out.toList = true) →
      searchRegion s.name out.toList = false →
      checkTables (sections.map Section.entry) out =
        .error (.valueError ("missing generated marker " ++ s.name)) ∧
      ∃ between, fillMarkers text ((before ++ [s]).map Section.entry) = .ok between ∧
        searchRegion s.name between.toList = true ∧
        fillMarkers between (behind.map Section.entry) = .ok out := by
  obtain ⟨front, free⟩ := @cutPieces_free text.toList
  obtain ⟨-, same⟩ := written_pieces text written
  -- After the run all regions that are left hold what their sections write.
  have kept := @fillAll_free sections _ free
  have names := distinct
  rw [← keys_filling] at names
  have holds := fillAll_holds names (cutPieces text.toList).2
  -- Every section is searched in the same text, which no writing changes.
  have search : ∀ s : Section, searchRegion s.name out.toList = true ↔
      HasRegion markOf s.name (fillAll (sections.map Section.filling) (cutPieces text.toList).2) := by
    intro s
    rw [same]
    exact searchRegion_pieces s front kept
  -- Sections that have regions left in the text write what is there already.
  have clean : ∀ some : List Section, (∀ s ∈ some, s ∈ sections) →
      (∀ s ∈ some, searchRegion s.name out.toList = true) →
      fillMarkers out (some.map Section.entry) = .ok out := by
    intro some listed found
    have held : ∀ f ∈ some.map Section.filling,
        Holds f (fillAll (sections.map Section.filling) (cutPieces text.toList).2) := by
      rw [List.forall_mem_map]
      exact fun s member => holds _ (List.mem_map_of_mem (listed s member))
    have all := (found_kept held).mpr fun s member => (search s).mp (found s member)
    have whole := fillMarkers_found front kept all
    rwa [fillAll_of_holds held, ← same] at whole
  refine ⟨⟨?_, ?_⟩, ?_⟩
  · intro passed s listed
    rw [checkTables, bind_eq_ok] at passed
    obtain ⟨rendered, filled, -⟩ := passed
    rw [same] at filled
    have outcome := @fillMarkers_spread sections _ _ front kept
    rw [filled] at outcome
    -- The second run goes through, so every section was found in it.
    rcases outcome with ⟨found, -⟩ | ⟨-, t, -, refused⟩
    · exact (search s).mpr ((found_kept holds).mp found s listed)
    · cases refused
  · intro found
    rw [checkTables, clean sections (fun s listed => listed) found, ok_bind, pure_ok]
    simp
  · rintro before s behind rfl found lost
    refine ⟨?_, ?_⟩
    · -- The sections in front find their regions, and this one does not.
      have first := clean before (fun t listed => List.mem_append_left _ listed) found
      rw [checkTables, List.map_append, fillMarkers_append, first, ok_bind, List.map_cons,
        Section.entry, fillMarkers, raiseIf, if_pos lost]
      rfl
    · -- In the first run the section was written, and those behind it after that.
      rw [List.append_cons, List.map_append, fillMarkers_append, bind_eq_ok] at written
      obtain ⟨between, begun, ended⟩ := written
      exact ⟨between, begun, searchRegion_written text between begun, ended⟩

/-- A section whose content has angle brackets in it, as the table of labels does. -/
def labelSection : Section := ⟨"labels", "qmux-02.<name>\n\n", by decide +kernel, by decide +kernel⟩

/-- A section with angle brackets is written, and found as it was written. -/
theorem fillMarkers_again_labels : checkTables [labelSection.entry]
    "a<!-- BEGIN GENERATED: labels -->\nqmux-02.<name>\n<!-- END GENERATED: labels -->b" = .ok [] := by
  have written : fillMarkers "a<!-- BEGIN GENERATED: labels -->\nold\n<!-- END GENERATED: labels -->b"
      ([labelSection].map Section.entry) = .ok
        "a<!-- BEGIN GENERATED: labels -->\nqmux-02.<name>\n<!-- END GENERATED: labels -->b" := by
    decide +kernel
  refine (fillMarkers_again [labelSection] (by decide) _ _ written).1.mpr ?_
  rw [List.forall_mem_singleton]
  decide +kernel

/-- Where the region of labels holds that of frames, it is written over it. -/
example : ∃ out, fillMarkers ("<!-- BEGIN GENERATED: labels -->\n<!-- BEGIN GENERATED: frames -->\n" ++
      "<!-- END GENERATED: frames --><!-- END GENERATED: labels -->") [("frames", "f"), ("labels", "l")] =
    .ok out ∧ checkTables [("frames", "f"), ("labels", "l")] out =
      .error (.valueError "missing generated marker frames") :=
  ⟨"<!-- BEGIN GENERATED: labels -->\nl\n<!-- END GENERATED: labels -->", by decide +kernel⟩

end Documents

end Zmux
