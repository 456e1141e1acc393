import Mathlib.Algebra.BigOperators.Group.List.Basic
import Mathlib.Algebra.Ring.Nat

/-! Counters in a dictionary, and the postings that they are the sums of. -/

namespace Wire

variable {κ ρ : Type} [DecidableEq κ]

/-- Counters by key, absent where nothing was counted yet. -/
abbrev Tally (κ : Type) := κ → Option Nat

namespace Tally

/-- A tally in which nothing was counted. -/
def empty : Tally κ := fun _ => none

/-- The count of a key, which is zero as long as there is none. -/
def count (tally : Tally κ) (key : κ) : Nat := (tally key).getD 0

/-- Count so much more of a key. -/
def add (tally : Tally κ) (key : κ) (amount : Nat) : Tally κ :=
  fun other => if other = key then some (tally.count key + amount) else tally other

omit [DecidableEq κ] in
/-- Nothing was counted of any key. -/
@[simp] theorem count_empty (key : κ) : (empty : Tally κ).count key = 0 := rfl

/-- Adding under one key leaves the counts of all other keys. -/
theorem count_add (tally : Tally κ) (key other : κ) (amount : Nat) :
    (tally.add key amount).count other =
      tally.count other + if other = key then amount else 0 := by
  -- The key that is counted has the amount more, and any other is looked up as before.
  by_cases same : other = key
  · subst same
    simp [add, count]
  · simp [add, count, same]

end Tally

variable (keyOf other : ρ → κ) (amount : ρ → Nat)

/-- The sum of the amounts that are posted under a key. -/
def totalBy (rows : List ρ) (key : κ) : Nat :=
  ((rows.filter fun row => keyOf row = key).map amount).sum

/-- No rows have a total of nothing. -/
@[simp] theorem totalBy_nil (key : κ) : totalBy keyOf amount [] key = 0 := rfl

/-- The totals of two lists of rows add up. -/
theorem totalBy_append (rows more : List ρ) (key : κ) :
    totalBy keyOf amount (rows ++ more) key =
      totalBy keyOf amount rows key + totalBy keyOf amount more key := by
  simp only [totalBy, List.filter_append, List.map_append, List.sum_append]

/-- One row has its amount under its own key, and nothing under others. -/
theorem totalBy_singleton (row : ρ) (key : κ) :
    totalBy keyOf amount [row] key = if key = keyOf row then amount row else 0 := by
  by_cases same : keyOf row = key
  · simp [totalBy, same]
  · simp [totalBy, same, Ne.symm same]

variable {keyOf other amount} {rows : List ρ} {key : κ}

/-- Counting one more row adds its amount to the total of its key. -/
theorem count_add_totalBy {tally : Tally κ}
    (counted : ∀ key, tally.count key = totalBy keyOf amount rows key) (row : ρ) (key : κ) :
    (tally.add (keyOf row) (amount row)).count key = totalBy keyOf amount (rows ++ [row]) key := by
  rw [Tally.count_add, counted, totalBy_append, totalBy_singleton]

/-- Rows with the same keys have the same totals. -/
theorem totalBy_congr (same : ∀ row ∈ rows, keyOf row = other row) :
    totalBy keyOf amount rows key = totalBy other amount rows key := by
  -- The rows of a key are the same by either of the two.
  have kept : rows.filter (fun row => keyOf row = key) =
      rows.filter fun row => other row = key := by
    apply List.filter_congr
    intro row member
    rw [same row member]
  rw [totalBy, totalBy, kept]

/-- A key from which no row was moved away has at least its own total. -/
theorem totalBy_le (kept : ∀ row ∈ rows, keyOf row = key → other row = key) :
    totalBy keyOf amount rows key ≤ totalBy other amount rows key := by
  induction rows with
  | nil => exact Nat.le_refl 0
  | cons row rows ih =>
    have rest := ih fun row member => kept row (List.mem_cons_of_mem _ member)
    have split := totalBy_append keyOf amount [row] rows key
    have parts := totalBy_append other amount [row] rows key
    rw [List.singleton_append, totalBy_singleton] at split parts
    have head := kept row List.mem_cons_self
    -- The first row counts on the right whenever it counts on the left.
    by_cases mine : keyOf row = key
    · rw [if_pos mine.symm] at split
      rw [if_pos (head mine).symm] at parts
      omega
    · rw [if_neg (Ne.symm mine)] at split
      omega

/-- A row that was moved to a key from which none was moved away makes its total larger. -/
theorem totalBy_lt {row : ρ} (member : row ∈ rows) (moved : keyOf row ≠ other row)
    (positive : 0 < amount row)
    (kept : ∀ held ∈ rows, keyOf held = other row → other held = other row) :
    totalBy keyOf amount rows (other row) < totalBy other amount rows (other row) := by
  obtain ⟨front, back, rfl⟩ := List.append_of_mem member
  -- The rows in front of it and behind it count on the right at least as much as on the left.
  have before : totalBy keyOf amount front (other row) ≤ totalBy other amount front (other row) :=
    totalBy_le fun held inside => kept held (by simp [inside])
  have behind : totalBy keyOf amount back (other row) ≤ totalBy other amount back (other row) :=
    totalBy_le fun held inside => kept held (by simp [inside])
  -- The row itself counts on the right only.
  rw [List.append_cons, totalBy_append, totalBy_append, totalBy_append, totalBy_append,
    totalBy_singleton, totalBy_singleton, if_neg (Ne.symm moved), if_pos rfl]
  omega

end Wire
