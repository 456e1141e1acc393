import Mathlib.Data.List.Chain
import Mathlib.Data.List.Find
import Mathlib.Order.Lattice

/-! Tables of ranges: where neighbours of a sorted table stay apart, all rows do. -/

namespace Wire

variable {ρ α : Type} [LinearOrder α] (first last : ρ → α)

/-- The range of a row holds a code, both of its ends included. -/
def Covers (row : ρ) (code : α) : Prop := first row ≤ code ∧ code ≤ last row

/-- Two rows have no code in common. -/
def Apart (row other : ρ) : Prop :=
  ∀ code, ¬ (Covers first last row code ∧ Covers first last other code)

/-- The range of a row ends before that of another begins. -/
def Before (row other : ρ) : Prop := last row < first other

variable {first last} {row other : ρ} {rows : List ρ}

/-- Two rows are apart in either order. -/
theorem Apart.symm (apart : Apart first last row other) : Apart first last other row := by
  intro code both
  exact apart code ⟨both.2, both.1⟩

instance : Std.Symm (@Apart ρ α _ first last) := ⟨fun _ _ apart => apart.symm⟩

/-- Two rows are apart when one is before the other. -/
theorem Before.apart (before : Before first last row other) : Apart first last row other := by
  intro code both
  -- A common code would lie behind the end of one range and before the beginning of the other.
  exact absurd (both.2.1.trans both.1.2) (not_le.mpr before)

/-- Of two ranges that are apart, the one that begins first ends before the other begins. -/
theorem Apart.before (apart : Apart first last row other) (ordered : first other ≤ last other)
    (sorted : first row ≤ first other) : Before first last row other := by
  by_contra reaches
  -- Otherwise the beginning of the second lies in both.
  exact apart (first other) ⟨⟨sorted, not_lt.mp reaches⟩, le_rfl, ordered⟩

/-- Where every row ends before the next begins, it ends before all later ones begin. -/
theorem pairwise_before (ordered : ∀ row ∈ rows, first row ≤ last row)
    (chain : rows.IsChain (Before first last)) : rows.Pairwise (Before first last) := by
  induction rows with
  | nil => exact .nil
  | cons row rows ih =>
    have later := ih (fun other member => ordered other (List.mem_cons_of_mem _ member)) chain.tail
    refine List.pairwise_cons.mpr ⟨?_, later⟩
    -- The next row is the first of those behind it, and its own range separates.
    cases rows with
    | nil => simp
    | cons next rows =>
      have step : Before first last row next := List.isChain_cons_cons.mp chain |>.1
      have inside : first next ≤ last next := ordered next (by simp)
      intro other member
      rcases List.mem_cons.mp member with rfl | behind
      · exact step
      · exact step.trans_le (inside.trans ((List.pairwise_cons.mp later).1 other behind).le)

/-- In a table sorted by the beginnings, the neighbours decide whether all rows are apart. -/
theorem chain_before_iff (ordered : ∀ row ∈ rows, first row ≤ last row)
    (sorted : rows.Pairwise fun row other => first row ≤ first other) :
    rows.IsChain (Before first last) ↔ rows.Pairwise (Apart first last) := by
  constructor
  · intro chain
    exact (pairwise_before ordered chain).imp Before.apart
  · intro apart
    have both : rows.Pairwise (Before first last) := by
      refine (sorted.and apart).imp_of_mem ?_
      intro row other _ member facts
      exact facts.2.before (ordered other member) facts.1
    exact both.isChain

/-- The rows that hold a code are all the same row. -/
theorem covers_subsingleton (apart : rows.Pairwise (Apart first last)) (code : α) :
    {row | row ∈ rows ∧ Covers first last row code}.Subsingleton := by
  intro row held other also
  by_contra different
  -- Distinct rows of a table that is apart have no code in common.
  have separate : Apart first last row other := apart.forall held.1 also.1 different
  exact separate code ⟨held.2, also.2⟩

/-- At most one place of the table holds a code. -/
theorem covering_le_one (apart : rows.Pairwise (Apart first last)) {code : α} {holds : ρ → Bool}
    (exactly : ∀ row, holds row = true ↔ Covers first last row code) :
    (rows.filter holds).length ≤ 1 := by
  have remain := apart.filter holds
  have cover : ∀ row ∈ rows.filter holds, Covers first last row code := by
    intro row member
    exact (exactly row).mp (List.mem_filter.mp member).2
  -- A second one would have the code in common with the first.
  cases found : rows.filter holds with
  | nil => simp
  | cons row others =>
    rw [found] at remain cover
    cases others with
    | nil => simp
    | cons other others =>
      have separate := (List.pairwise_cons.mp remain).1 other (by simp)
      exact absurd ⟨cover row (by simp), cover other (by simp)⟩ (separate code)

/-- The pairs of a list and its tail are its neighbours. -/
theorem isChain_iff_zip {R : ρ → ρ → Prop} :
    rows.IsChain R ↔ ∀ pair ∈ rows.zip (rows.drop 1), R pair.1 pair.2 := by
  induction rows with
  | nil => simp
  | cons row rows ih =>
    cases rows with
    | nil => simp
    | cons next rows =>
      -- The first pair is that of the first two rows, and the others are those of the tail.
      rw [List.isChain_cons_cons, ih]
      simp

end Wire
