import Mathlib.Data.List.Sort
import Mathlib.Data.Prod.Lex
import Mathlib.Data.String.Basic
import Zmux.Codec.Registry

/-! The validator's check that the ranges of frame types do not overlap. -/

namespace Zmux

/-- What the check looks at in a row of a table of frame types. -/
structure FrameRange where
  first : Nat
  last : Nat
  name : String
  deriving DecidableEq, Repr

/-- The range of a row of the registry. -/
def FrameMeta.range (row : FrameMeta) : FrameRange := ⟨row.first, row.last, row.name.text⟩

/-- Ranges are compared by their beginnings, then by their ends, then by their names. -/
def FrameRange.tuple (range : FrameRange) : Nat ×ₗ Nat ×ₗ String :=
  toLex (range.first, toLex (range.last, range.name))

/-- The ranges in the order of their first numbers. -/
def sortedRanges (ranges : List FrameRange) : List FrameRange :=
  ranges.insertionSort fun range other => range.tuple ≤ other.tuple

/-- What the check says of two neighbours, if anything. -/
def overlapReport (range next : FrameRange) : Option String :=
  if next.first ≤ range.last then
    some s!"registry: frame ranges {range.name} and {next.name} overlap"
  else none

/-- The reports of the check, which compares only neighbours of the sorted ranges. -/
def overlapReports (ranges : List FrameRange) : List String :=
  let sorted := sortedRanges ranges
  (sorted.zip (sorted.drop 1)).filterMap fun pair => overlapReport pair.1 pair.2

section Table

variable {ρ : Type} (range : ρ → FrameRange)

/-- Whether a number lies in the range of a row. -/
def holdsType (t : Nat) (row : ρ) : Bool := (range row).first ≤ t ∧ t ≤ (range row).last

/-- The first row of a table whose range holds a number. -/
def rowByType (table : List ρ) (t : Nat) : Option ρ := table.find? (holdsType range t)

end Table

/-- The lookup of the registry is the lookup in its own table. -/
theorem frameByType_eq (t : Nat) : frameByType t = rowByType FrameMeta.range frameTypes t := rfl

end Zmux
