import Mathlib.Data.List.Basic

/-! Byte strings addressed by position, and computations that answer or fail. -/

namespace Wire

/-- A byte string. -/
abbrev Bytes := List UInt8

/-- The bytes from one position up to another, cut short where the buffer ends. -/
def slice (buf : Bytes) (start stop : Nat) : Bytes :=
  -- Dropping first keeps the width independent of what stands before the start.
  (buf.drop start).take (stop - start)

/-- A slice inside the buffer has the width it was asked for. -/
theorem slice_length {buf : Bytes} {start stop : Nat} (inside : stop ≤ buf.length) :
    (slice buf start stop).length = stop - start := by
  -- The suffix from the start still reaches as far as the stop.
  simp only [slice, List.length_take, List.length_drop]
  omega

/-- A slice that runs to the end of the buffer is the whole suffix. -/
theorem slice_to_end (buf : Bytes) (start : Nat) : slice buf start buf.length = buf.drop start := by
  -- The suffix has exactly as many bytes as the slice may take.
  simp [slice, List.take_of_length_le]

/-- A slice of a slice is the slice of the buffer at the shifted positions. -/
theorem slice_slice {buf : Bytes} {start stop first last : Nat} (inside : last ≤ stop - start) :
    slice (slice buf start stop) first last = slice buf (start + first) (start + last) := by
  -- Both sides skip the same bytes, and the inner bound is the tighter one.
  simp only [slice, List.drop_take, List.drop_drop, List.take_take]
  congr 1
  omega

/-- A slice that starts at the end of a prefix is cut from what follows the prefix. -/
theorem slice_append_right (front back : Bytes) (first last : Nat) :
    slice (front ++ back) (front.length + first) (front.length + last) = slice back first last := by
  -- Dropping at least the whole front leaves a suffix of the back alone.
  simp only [slice, List.drop_append, List.drop_eq_nil_of_le (Nat.le_add_right _ _),
    List.nil_append, Nat.add_sub_cancel_left]
  congr 1
  omega

/-- A slice and what stands behind it make up what follows its start. -/
theorem slice_append_drop {buf : Bytes} {start stop : Nat} (ordered : start ≤ stop) :
    slice buf start stop ++ buf.drop stop = buf.drop start := by
  -- What stands behind the slice is dropped in two steps.
  have parts := List.take_append_drop (stop - start) (buf.drop start)
  rwa [List.drop_drop, Nat.add_sub_cancel' ordered] at parts

/-- A slice that starts where some bytes do, and is as wide as they are, is these bytes. -/
theorem slice_front {buf front rest : Bytes} {start : Nat} (here : buf.drop start = front ++ rest) :
    slice buf start (start + front.length) = front := by
  rw [slice, here, Nat.add_sub_cancel_left, List.take_left]

/-- A slice is a part of it followed by the slice behind that part. -/
theorem slice_append_slice {buf : Bytes} {start middle stop : Nat} (early : start ≤ middle)
    (late : middle ≤ stop) :
    slice buf start middle ++ slice buf middle stop = slice buf start stop := by
  -- Taking as many bytes as both parts have is taking the parts one after the other.
  have total : stop - start = (middle - start) + (stop - middle) := by omega
  have moved : middle = start + (middle - start) := by omega
  simp only [slice]
  rw [total, List.take_add, List.drop_drop, ← moved]

section Outcome

variable {ε α β : Type}

/-- What is returned is an outcome without failure. -/
@[simp] theorem pure_ok (value : α) : (pure value : Except ε α) = .ok value := rfl

/-- An outcome without failure is handed on. -/
@[simp] theorem ok_bind (value : α) (next : α → Except ε β) :
    ((Except.ok value : Except ε α) >>= next) = next value := rfl

/-- A failure is not handed on. -/
@[simp] theorem error_bind (fault : ε) (next : α → Except ε β) :
    ((Except.error fault : Except ε α) >>= next) = .error fault := rfl

/-- A sequence answers exactly when both of its steps do. -/
@[simp] theorem bind_eq_ok {first : Except ε α} {next : α → Except ε β} {answer : β} :
    (first >>= next) = .ok answer ↔ ∃ value, first = .ok value ∧ next value = .ok answer := by
  -- A failed first step answers nothing, and an answer is handed to the second step.
  cases first <;> simp

/-- A sequence fails in its first step, or in its second after the first has answered. -/
@[simp] theorem bind_eq_error {first : Except ε α} {next : α → Except ε β} {fault : ε} :
    (first >>= next) = .error fault ↔
      first = .error fault ∨ ∃ value, first = .ok value ∧ next value = .error fault := by
  -- The first failure ends the sequence, so the second step is asked only after an answer.
  cases first <;> simp

/-- The value of an outcome is changed. -/
@[simp] theorem map_ok (change : α → β) (value : α) :
    (Except.ok value : Except ε α).map change = .ok (change value) := rfl

/-- A failure is left as it is. -/
@[simp] theorem map_error (change : α → β) (fault : ε) :
    (Except.error fault : Except ε α).map change = .error fault := rfl

/-- A changed answer comes from an answer. -/
@[simp] theorem map_eq_ok {outcome : Except ε α} {change : α → β} {answer : β} :
    outcome.map change = .ok answer ↔ ∃ value, outcome = .ok value ∧ change value = answer := by
  cases outcome <;> simp

/-- Changing the answer leaves every failure as it is. -/
@[simp] theorem map_eq_error {outcome : Except ε α} {change : α → β} {fault : ε} :
    outcome.map change = .error fault ↔ outcome = .error fault := by
  cases outcome <;> simp

/-- The answer of a sequence is changed where its second step gives it. -/
theorem map_bind {γ : Type} (first : Except ε α) (next : α → Except ε β) (change : β → γ) :
    (first >>= next).map change = first >>= fun value => (next value).map change := by
  cases first <;> rfl

/-- Reading images of items that are all read well. -/
theorem mapM_map_ok {γ : Type} (read : β → Except ε γ) {image : α → β} {result : α → γ}
    (each : ∀ item, read (image item) = .ok (result item)) (items : List α) :
    (items.map image).mapM read = .ok (items.map result) := by
  induction items with
  | nil => rfl
  | cons item items ih =>
    rw [List.map_cons, List.mapM_cons, each, ok_bind, ih, ok_bind, pure_ok, List.map_cons]

/-- A check of every element fails with the first one that it does not pass. -/
theorem mapM_eq_error {check : α → Except ε β} {given : List α} {fault : ε} :
    given.mapM check = .error fault ↔ ∃ before one after, given = before ++ one :: after ∧
      (∀ other ∈ before, ∃ answer, check other = .ok answer) ∧ check one = .error fault := by
  -- The first element fails itself, or passes and leaves the failure to the others.
  induction given with
  | nil => simp
  | cons one others ih =>
    simp only [List.mapM_cons, bind_eq_error, pure_ok, ih]
    constructor
    · intro failed
      rcases failed with failed | ⟨answer, passed,
        ⟨before, next, after, rfl, earlier, failed⟩ | ⟨_, -, none⟩⟩
      · exact ⟨[], one, others, rfl, by simp, failed⟩
      · refine ⟨one :: before, next, after, rfl, ?_, failed⟩
        intro other member
        rcases List.mem_cons.mp member with rfl | member
        · exact ⟨answer, passed⟩
        · exact earlier other member
      · cases none
    · intro failed
      obtain ⟨before, next, after, split, earlier, failed⟩ := failed
      cases before with
      | nil =>
        cases split
        exact .inl failed
      | cons first before =>
        cases split
        obtain ⟨answer, passed⟩ := earlier one List.mem_cons_self
        exact .inr ⟨answer, passed, .inl ⟨before, next, after, rfl,
          fun other member => earlier other (List.mem_cons_of_mem _ member), failed⟩⟩

/-- Fail when a condition holds. -/
def raiseIf (refused : Prop) [Decidable refused] (fault : ε) : Except ε Unit :=
  -- The answer carries no value: a check only lets a computation go on.
  if refused then .error fault else .ok ()

/-- Nothing is raised when the condition does not hold. -/
@[simp] theorem raiseIf_eq_ok {refused : Prop} [Decidable refused] {fault : ε} {answer : Unit} :
    raiseIf refused fault = .ok answer ↔ ¬ refused := by
  -- The two branches of the check are the two truth values of its condition.
  unfold raiseIf
  split <;> simp_all

/-- A failure is raised when the condition holds. -/
@[simp] theorem raiseIf_eq_error {refused : Prop} [Decidable refused] {fault raised : ε} :
    raiseIf refused fault = .error raised ↔ refused ∧ fault = raised := by
  -- Only the branch in which the condition holds fails, and it fails in one way.
  unfold raiseIf
  split <;> simp_all

end Outcome

end Wire
