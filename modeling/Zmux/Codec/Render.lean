import Zmux.Codec.Varint
import Zmux.Wire.Reports

/-! Documents with generated regions, which are found by their marks and written anew. -/

namespace Zmux

open Wire

section Regions

/-- The mark in front of a region, with the end of its line. -/
def beginMark (name : String) : List Char := '<' :: ("!-- BEGIN GENERATED: " ++ name ++ " -->\n").toList

/-- The mark behind a region. -/
def endMark (name : String) : List Char := '<' :: ("!-- END GENERATED: " ++ name ++ " -->").toList

/-- What is behind the first place where a mark stands. -/
def behindMark (mark : List Char) : List Char → Option (List Char)
  | [] => none
  | c :: text =>
    if mark.isPrefixOf (c :: text) then some ((c :: text).drop mark.length) else behindMark mark text

/-- What is behind a mark is no longer than the text. -/
theorem behindMark_length {mark text back : List Char} (found : behindMark mark text = some back) :
    back.length ≤ text.length := by
  induction text with
  | nil => cases found
  | cons c text ih =>
    rw [behindMark] at found
    split at found
    · cases found
      rw [List.length_drop]
      exact Nat.sub_le _ _
    · exact Nat.le_succ_of_le (ih found)

/-- What is behind the region that begins here, which ends at the first mark that can end it. -/
def regionHere (name : String) (text : List Char) : Option (List Char) :=
  if (beginMark name).isPrefixOf text then
    behindMark (endMark name) (text.drop (beginMark name).length)
  else none

/-- A region takes at least the mark in front of it. -/
theorem regionHere_length {name : String} {text back : List Char}
    (found : regionHere name text = some back) : back.length < text.length := by
  rw [regionHere] at found
  split at found
  · rename_i marked
    have behind := behindMark_length found
    have front := (List.isPrefixOf_iff_prefix.mp marked).length_le
    have filled : 0 < (beginMark name).length := Nat.succ_pos _
    rw [List.length_drop] at behind
    omega
  · cases found

/-- Whether there is a region anywhere in a text. -/
def searchRegion (name : String) : List Char → Bool
  | [] => false
  | c :: text => (regionHere name (c :: text)).isSome || searchRegion name text

/-- The content of a region, which ends with exactly one line break. -/
def regionBody (content : String) : List Char :=
  (content.toList.reverse.dropWhile fun letter => letter = '\n').reverse ++ ['\n']

/-- Write every region of a name anew, from the left to the right. -/
def subRegions (name content : String) : List Char → List Char
  | [] => []
  | c :: text =>
    match found : regionHere name (c :: text) with
    | some back =>
      have _shorter := regionHere_length found
      beginMark name ++ regionBody content ++ endMark name ++ subRegions name content back
    | none => c :: subRegions name content text
termination_by text => text.length
decreasing_by all_goals simp_all

/-- Write the regions of all sections anew, each of which must be in the text. -/
def fillMarkers (text : String) : List (String × String) → Except Failure String
  | [] => .ok text
  | (name, content) :: sections => do
    raiseIf (searchRegion name text.toList = false)
      (.valueError ("missing generated marker " ++ name))
    fillMarkers (String.ofList (subRegions name content text.toList)) sections

end Regions

/-- What is found wrong with the tables of a document, which must be as they are rendered. -/
def checkTables (sections : List (String × String)) (md : String) :
    Except Failure (List String) := do
  let rendered ← fillMarkers md sections
  return reportIf (rendered ≠ md) "registry: REGISTRY.md generated tables are stale"

end Zmux
