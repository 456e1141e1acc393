import Mathlib.Algebra.Ring.Nat
import Mathlib.Data.List.Induction
import Mathlib.Order.Lattice
import Zmux.Wire.Bytes

/-! Dictionaries as lists of entries in the order they came, each key once. -/

namespace Wire

variable {κ ν α : Type}

/-- An entry of another key is passed by. -/
theorem lookup_cons_of_ne [BEq κ] [LawfulBEq κ] {table : List (κ × ν)} {key other : κ} {held : ν}
    (different : key ≠ other) : ((other, held) :: table).lookup key = table.lookup key := by
  rw [List.lookup_cons, beq_eq_false_iff_ne.mpr different]

/-- An entry is found under its key where no other has the key. -/
theorem lookup_of_nodup [BEq κ] [LawfulBEq κ] {table : List (κ × ν)} {key : κ} {value : ν}
    (distinct : (table.map Prod.fst).Nodup) (listed : (key, value) ∈ table) :
    table.lookup key = some value := by
  -- The induction is on the entries, the first of which is the one or not.
  induction table with
  | nil => simp at listed
  | cons entry table ih =>
    obtain ⟨other, held⟩ := entry
    rw [List.map_cons, List.nodup_cons] at distinct
    rcases List.mem_cons.mp listed with same | later
    · cases same
      rw [List.lookup_cons_self]
    · -- The key of a later entry is another one.
      have different : key ≠ other := by
        rintro rfl
        exact distinct.1 (List.mem_map.mpr ⟨_, later, rfl⟩)
      rw [lookup_cons_of_ne different]
      exact ih distinct.2 later

/-- Two tables with the same keys and related values have related values under every key. -/
theorem lookup_rel {μ : Type} [BEq κ] {R : ν → μ → Prop} {table : List (κ × ν)}
    {other : List (κ × μ)} (key : κ)
    (alike : List.Forall₂ (fun row held => row.1 = held.1 ∧ R row.2 held.2) table other) :
    Option.Rel R (table.lookup key) (other.lookup key) := by
  -- The induction is on the two tables, side by side.
  induction alike with
  | nil => exact .none
  | cons first _ ih =>
    obtain ⟨same, related⟩ := first
    rw [List.lookup_cons, List.lookup_cons, same]
    split
    · exact .some related
    · exact ih

/-- A table that is sorted by its keys has them in ascending order. -/
theorem ascending_mergeSort [LinearOrder κ] {table : List (κ × ν)}
    (distinct : (table.map Prod.fst).Nodup) :
    ((table.mergeSort fun first second => first.1 ≤ second.1).map Prod.fst).Pairwise (· < ·) := by
  -- Sorted keys that are distinct are in strict order.
  have ordered := @List.pairwise_mergeSort _ (fun first second : κ × ν => decide (first.1 ≤ second.1))
    (by simpa using fun _ _ _ _ _ _ => le_trans) (by simpa using fun _ _ _ _ => le_total _ _) table
  have own := ((List.mergeSort_perm table fun first second => decide (first.1 ≤ second.1)).map
    Prod.fst).nodup_iff.mpr distinct
  rw [List.Nodup, List.pairwise_map] at own
  rw [List.pairwise_map]
  apply (ordered.and own).imp
  intro first second both
  exact lt_of_le_of_ne (of_decide_eq_true both.1) both.2

/-- Distinct images of items are as often there as the items. -/
theorem eraseDups_map [BEq α] [LawfulBEq α] {β : Type} [BEq β] [LawfulBEq β] {image : α → β}
    {items : List α} (own : ∀ item ∈ items, ∀ other ∈ items, image item = image other → item = other) :
    (items.map image).eraseDups = items.eraseDups.map image := by
  -- The induction is on the number of items, since duplicates of the first one are left out.
  induction h : items.length using Nat.strongRecOn generalizing items with
  | ind n ih =>
    cases items with
    | nil => rfl
    | cons item items =>
      -- The images that are left out are those of the items that are.
      have apart : (items.map image).filter (fun other => !other == image item) =
          (items.filter fun other => !other == item).map image := by
        rw [List.filter_map]
        congr 1
        apply List.filter_congr
        intro other listed
        rw [Function.comp_apply]
        congr 1
        rw [Bool.eq_iff_iff, beq_iff_eq, beq_iff_eq]
        refine ⟨own other (List.mem_cons_of_mem _ listed) item List.mem_cons_self, ?_⟩
        rintro rfl
        rfl
      rw [List.map_cons, List.eraseDups_cons, List.eraseDups_cons, apart, List.map_cons]
      refine congrArg (image item :: ·) (ih _ ?_ ?_ rfl)
      · have fewer := List.length_filter_le (fun other => !other == item) items
        rw [List.length_cons] at h
        omega
      · intro first listed second member
        exact own first (List.mem_cons_of_mem _ (List.mem_of_mem_filter listed)) second
          (List.mem_cons_of_mem _ (List.mem_of_mem_filter member))

variable [DecidableEq κ] {key : κ} {value : ν}

section Put

/-- Put a value under a key, in place of one that is there already. -/
def put (table : List (κ × ν)) (key : κ) (value : ν) : List (κ × ν) :=
  match table with
  | [] => [(key, value)]
  | (other, held) :: table =>
    if other = key then (key, value) :: table else (other, held) :: put table key value

variable {table : List (κ × ν)}

/-- A new key is put behind all others. -/
theorem put_new (new : key ∉ table.map Prod.fst) : put table key value = table ++ [(key, value)] := by
  -- The induction is on the entries, none of which has the key.
  induction table with
  | nil => rfl
  | cons entry table ih =>
    rw [List.map_cons, List.mem_cons, not_or] at new
    rw [put, if_neg (Ne.symm new.1), ih new.2, List.cons_append]

/-- Putting a value under a key leaves the keys, or adds this one behind them. -/
theorem keys_put : (put table key value).map Prod.fst =
    if key ∈ table.map Prod.fst then table.map Prod.fst else table.map Prod.fst ++ [key] := by
  -- The induction is on the entries, up to the one that has the key.
  induction table with
  | nil => rfl
  | cons entry table ih =>
    obtain ⟨other, held⟩ := entry
    rw [put]
    by_cases same : other = key
    · simp [same]
    · rw [if_neg same, List.map_cons, ih]
      by_cases known : key ∈ table.map Prod.fst
      · simp only [List.map_cons, List.mem_cons, known, or_true]
        rfl
      · simp only [List.map_cons, List.mem_cons, known, or_false, Ne.symm same, if_false,
          List.cons_append]

/-- Keys that are distinct stay so when a value is put. -/
theorem nodup_put (distinct : (table.map Prod.fst).Nodup) :
    ((put table key value).map Prod.fst).Nodup := by
  rw [keys_put]
  split
  · exact distinct
  · -- A new key is none of those that are there.
    rename_i new
    rw [List.nodup_append]
    refine ⟨distinct, by simp, fun held listed other same => ?_⟩
    rw [List.mem_singleton.mp same]
    rintro rfl
    exact new listed

/-- After a value is put, every entry is that one or was there before. -/
theorem mem_put {entry : κ × ν} (listed : entry ∈ put table key value) :
    entry = (key, value) ∨ entry ∈ table := by
  -- The induction is on the entries, up to the one that has the key.
  induction table with
  | nil => exact .inl (List.mem_singleton.mp listed)
  | cons first table ih =>
    obtain ⟨other, held⟩ := first
    rw [put] at listed
    split at listed
    · exact (List.mem_cons.mp listed).imp_right (List.mem_cons_of_mem _)
    · rcases List.mem_cons.mp listed with rfl | later
      · exact .inr List.mem_cons_self
      · exact (ih later).imp_right (List.mem_cons_of_mem _)

/-- Values whose keys are all distinct are put one behind the other. -/
theorem foldl_put {keyOf : α → κ} {valueOf : α → ν} {rows : List α}
    (distinct : (table.map Prod.fst ++ rows.map keyOf).Nodup) :
    rows.foldl (fun table row => put table (keyOf row) (valueOf row)) table =
      table ++ rows.map fun row => (keyOf row, valueOf row) := by
  -- The induction is on the rows, each of which has a new key.
  induction rows generalizing table with
  | nil => simp
  | cons row rows ih =>
    have new : keyOf row ∉ table.map Prod.fst := by
      intro member
      rw [List.map_cons, List.nodup_append] at distinct
      exact distinct.2.2 _ member _ List.mem_cons_self rfl
    rw [List.foldl_cons, put_new new, ih]
    · simp
    · simpa using distinct

end Put

section Counts

/-- Count one more of a key. -/
def countOne (counts : List (κ × Nat)) (key : κ) : List (κ × Nat) :=
  match counts with
  | [] => [(key, 1)]
  | (other, count) :: counts =>
    if other = key then (key, count + 1) :: counts else (other, count) :: countOne counts key

/-- Count the rows of each key. -/
def countRows (keyOf : α → κ) (rows : List α) : List (κ × Nat) :=
  rows.foldl (fun counts row => countOne counts (keyOf row)) []

variable {counts : List (κ × Nat)} {keyOf : α → κ} {rows : List α} {n : Nat}

/-- Counting one more of a key leaves the keys, or adds this one behind them. -/
theorem keys_countOne : (countOne counts key).map Prod.fst =
    if key ∈ counts.map Prod.fst then counts.map Prod.fst else counts.map Prod.fst ++ [key] := by
  -- The induction is on the entries, up to the one that has the key.
  induction counts with
  | nil => rfl
  | cons entry counts ih =>
    obtain ⟨other, count⟩ := entry
    rw [countOne]
    by_cases same : other = key
    · simp [same]
    · rw [if_neg same, List.map_cons, ih]
      by_cases known : key ∈ counts.map Prod.fst
      · simp only [List.map_cons, List.mem_cons, known, or_true]
        rfl
      · simp only [List.map_cons, List.mem_cons, known, or_false, Ne.symm same, if_false,
          List.cons_append]

/-- Counting one more of a key leaves the counts of all other keys. -/
theorem lookup_countOne {other : κ} : ((countOne counts key).lookup other).getD 0 =
    (counts.lookup other).getD 0 + if other = key then 1 else 0 := by
  -- The induction is on the entries, up to the one that has the key.
  induction counts with
  | nil =>
    rw [countOne]
    by_cases same : other = key
    · simp [same]
    · simp [lookup_cons_of_ne same, same]
  | cons entry counts ih =>
    obtain ⟨held, count⟩ := entry
    rw [countOne]
    by_cases here : held = key
    · subst here
      rw [if_pos rfl]
      by_cases same : other = held
      · simp [same]
      · rw [lookup_cons_of_ne same, lookup_cons_of_ne same, if_neg same, Nat.add_zero]
    · rw [if_neg here]
      by_cases same : other = held
      · subst same
        simp [here]
      · rw [lookup_cons_of_ne same, lookup_cons_of_ne same, ih]

/-- Counting one more of a key adds one to the sum. -/
theorem sum_countOne :
    ((countOne counts key).map Prod.snd).sum = (counts.map Prod.snd).sum + 1 := by
  -- The induction is on the entries, up to the one that has the key.
  induction counts with
  | nil => rfl
  | cons entry counts ih =>
    obtain ⟨other, count⟩ := entry
    rw [countOne]
    by_cases same : other = key
    · rw [if_pos same, List.map_cons, List.map_cons, List.sum_cons, List.sum_cons]
      omega
    · rw [if_neg same, List.map_cons, List.map_cons, List.sum_cons, List.sum_cons, ih]
      omega

/-- Keys that are there have been counted once at least. -/
theorem positive_countOne (positive : ∀ entry ∈ counts, 0 < entry.2) :
    ∀ entry ∈ countOne counts key, 0 < entry.2 := by
  -- The induction is on the entries, up to the one that has the key.
  induction counts with
  | nil => simp [countOne]
  | cons entry counts ih =>
    obtain ⟨other, count⟩ := entry
    rw [List.forall_mem_cons] at positive
    rw [countOne]
    by_cases same : other = key
    · rw [if_pos same, List.forall_mem_cons]
      exact ⟨Nat.succ_pos count, positive.2⟩
    · rw [if_neg same, List.forall_mem_cons]
      exact ⟨positive.1, ih positive.2⟩

/-- Every row is counted under its key, and nothing else is. -/
theorem countRows_spec : ((countRows keyOf rows).map Prod.fst).Nodup ∧
    (∀ entry ∈ countRows keyOf rows, 0 < entry.2) ∧
      (∀ key, ((countRows keyOf rows).lookup key).getD 0 = rows.countP fun row => keyOf row = key) ∧
        ((countRows keyOf rows).map Prod.snd).sum = rows.length := by
  -- One more row is counted behind those before it.
  induction rows using List.reverseRecOn with
  | nil => simp [countRows]
  | append_singleton rows row ih =>
    obtain ⟨distinct, positive, counted, total⟩ := ih
    have next : countRows keyOf (rows ++ [row]) = countOne (countRows keyOf rows) (keyOf row) := by
      rw [countRows, List.foldl_append]
      rfl
    rw [next]
    refine ⟨?_, positive_countOne positive, ?_, ?_⟩
    · rw [keys_countOne]
      split
      · exact distinct
      · rename_i new
        rw [List.nodup_append]
        refine ⟨distinct, by simp, ?_⟩
        rintro key member other listed rfl
        exact new (List.mem_singleton.mp listed ▸ member)
    · intro key
      rw [lookup_countOne, counted, List.countP_append, List.countP_singleton]
      by_cases same : keyOf row = key
      · simp [same]
      · simp [same, Ne.symm same]
    · rw [sum_countOne, total, List.length_append, List.length_singleton]

/-- The entries are the keys of the rows, each with the number of its rows. -/
theorem mem_countRows : (key, n) ∈ countRows keyOf rows ↔
    0 < n ∧ n = rows.countP fun row => keyOf row = key := by
  obtain ⟨distinct, positive, counted, -⟩ := @countRows_spec _ _ _ keyOf rows
  constructor
  · intro listed
    -- The entry is found under its key, where its count is.
    have found := lookup_of_nodup distinct listed
    rw [← counted key, found]
    exact ⟨positive _ listed, rfl⟩
  · rintro ⟨some, same⟩
    rw [← counted key] at same
    cases found : (countRows keyOf rows).lookup key with
    | none => simp [found] at same; omega
    | some count =>
      obtain rfl : n = count := by simpa [found] using same
      obtain ⟨front, back, split, -⟩ := List.lookup_eq_some_iff.mp found
      rw [split]
      simp

end Counts

end Wire
