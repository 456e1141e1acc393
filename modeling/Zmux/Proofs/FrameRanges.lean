import Zmux.Codec.FrameRanges
import Zmux.Wire.Intervals

/-! A table of frame types without a report has no number in two of its ranges. -/

namespace Zmux

open Wire

section Sorted

variable {ranges : List FrameRange}

/-- Sorting leaves all ranges. -/
theorem sortedRanges_perm (ranges : List FrameRange) : (sortedRanges ranges).Perm ranges :=
  List.perm_insertionSort _ _

/-- The sorted ranges begin one after the other. -/
theorem sortedRanges_sorted (ranges : List FrameRange) :
    (sortedRanges ranges).Pairwise fun range other => range.first ≤ other.first := by
  have total : Std.Total fun range other : FrameRange => range.tuple ≤ other.tuple :=
    ⟨fun range other => le_total range.tuple other.tuple⟩
  have trans : IsTrans FrameRange fun range other => range.tuple ≤ other.tuple :=
    ⟨fun _ _ _ => le_trans⟩
  have sorted := List.pairwise_insertionSort
    (fun range other : FrameRange => range.tuple ≤ other.tuple) ranges
  -- The beginning is what tuples are compared by first.
  refine sorted.imp ?_
  intro range other below
  rcases Prod.Lex.le_iff.mp below with less | same
  · exact less.le
  · exact same.1.le

/-- Nothing is reported exactly when every sorted range ends before the next begins. -/
theorem overlapReports_eq_nil : overlapReports ranges = [] ↔
    (sortedRanges ranges).IsChain (Before FrameRange.first FrameRange.last) := by
  rw [isChain_iff_zip, overlapReports, List.filterMap_eq_nil_iff]
  -- The check of a pair is on the end of one range and the beginning of the next.
  simp only [overlapReport, ite_eq_right_iff, reduceCtorEq, imp_false, Nat.not_le, Before]

/-- Nothing is reported exactly when no number lies in two of the ranges. -/
theorem overlapReports_eq_nil_iff (ordered : ∀ range ∈ ranges, range.first ≤ range.last) :
    overlapReports ranges = [] ↔ ranges.Pairwise (Apart FrameRange.first FrameRange.last) := by
  have perm := sortedRanges_perm ranges
  have inside : ∀ range ∈ sortedRanges ranges, range.first ≤ range.last := by
    intro range member
    exact ordered range (perm.subset member)
  -- Sorting neither adds nor removes a range, so it keeps the ranges apart or not.
  rw [overlapReports_eq_nil, chain_before_iff inside (sortedRanges_sorted ranges)]
  exact perm.pairwise_iff Apart.symm

end Sorted

section Table

variable {ρ : Type} {range : ρ → FrameRange} {table : List ρ}

/-- A row holds a type when its range covers it. -/
theorem holdsType_eq_true {t : Nat} {row : ρ} : holdsType range t row = true ↔
    Covers (fun row => (range row).first) (fun row => (range row).last) row t := by
  simp [holdsType, Covers]

/-- In a table whose rows are apart the order does not matter to a lookup. -/
theorem rowByType_perm
    (apart : table.Pairwise (Apart (fun row => (range row).first) fun row => (range row).last))
    {other : List ρ} (perm : other.Perm table) (t : Nat) :
    rowByType range other t = rowByType range table t := by
  -- There is only one row to find.
  refine (List.find?_eq_find?_of_perm perm.symm ?_).symm
  simp only [holdsType_eq_true]
  exact covers_subsingleton apart t

/-- The rows of a table are apart exactly when no number lies in the ranges of two places. -/
theorem pairwise_apart_iff :
    table.Pairwise (Apart (fun row => (range row).first) fun row => (range row).last) ↔
      ∀ i j : Fin table.length, i ≠ j → ∀ t,
        ¬ (holdsType range t (table.get i) = true ∧ holdsType range t (table.get j) = true) := by
  simp only [holdsType_eq_true]
  rw [List.pairwise_iff_get]
  constructor
  · intro apart i j different
    -- One of the two places comes first.
    rcases lt_or_gt_of_ne different with before | behind
    · exact apart i j before
    · exact (apart j i behind).symm
  · intro apart i j before
    exact apart i j before.ne

end Table

/-- A table without a report has one row at most for every number, and any overlap is reported. -/
theorem overlapReports_complete {ρ : Type} (range : ρ → FrameRange) (table : List ρ)
    (ordered : ∀ row ∈ table, (range row).first ≤ (range row).last) :
    (overlapReports (table.map range) = [] →
      (∀ i j : Fin table.length, i ≠ j → ∀ t,
        ¬ (holdsType range t (table.get i) = true ∧ holdsType range t (table.get j) = true)) ∧
      (∀ t, (table.filter (holdsType range t)).length ≤ 1) ∧
      ∀ other : List ρ, other.Perm table → ∀ t,
        rowByType range other t = rowByType range table t) ∧
    ∀ (i j : Fin table.length) (t : Nat), i ≠ j → holdsType range t (table.get i) = true →
      holdsType range t (table.get j) = true → overlapReports (table.map range) ≠ [] := by
  have inside : ∀ found ∈ table.map range, found.first ≤ found.last := by
    intro found member
    obtain ⟨row, listed, rfl⟩ := List.mem_map.mp member
    exact ordered row listed
  have silent := overlapReports_eq_nil_iff inside
  rw [List.pairwise_map] at silent
  constructor
  · intro nothing
    have apart := silent.mp nothing
    refine ⟨pairwise_apart_iff.mp apart, ?_, ?_⟩
    · intro t
      -- The rows that the filter keeps are those that hold the number.
      exact covering_le_one apart fun row => holdsType_eq_true
    · intro other perm t
      exact rowByType_perm apart perm t
  · intro i j t different first second nothing
    exact pairwise_apart_iff.mp (silent.mp nothing) i j different t ⟨first, second⟩

/-- The registry has no overlap, so its rows are found whatever their order is. -/
theorem overlapReports_complete_registry :
    overlapReports (frameTypes.map FrameMeta.range) = [] ∧
      ∀ other : List FrameMeta, other.Perm frameTypes → ∀ t,
        rowByType FrameMeta.range other t = frameByType t := by
  have silent : overlapReports (frameTypes.map FrameMeta.range) = [] := by decide
  have complete := (overlapReports_complete FrameMeta.range frameTypes (by decide)).1 silent
  refine ⟨silent, ?_⟩
  intro other perm t
  rw [frameByType_eq]
  exact complete.2.2 other perm t

end Zmux
