import Zmux.Wire.Bytes

/-! Readers confined to a window of a buffer, with the confinement carried by their type. -/

namespace Wire

variable {ε α β : Type}

/-- Two outcomes are the same answer, or failures that count as the same. -/
def Agree [Setoid ε] : Except ε α → Except ε α → Prop
  | .ok left, .ok right => left = right
  | .error left, .error right => left ≈ right
  | _, _ => False

/-- An outcome agrees with itself. -/
theorem Agree.refl [Setoid ε] (outcome : Except ε α) : Agree outcome outcome := by
  cases outcome with
  | error fault => exact Setoid.refl fault
  | ok answer => rfl

/-- Outcomes that agree are both failures of the same kind, or both one answer. -/
theorem Agree.outcomes [Setoid ε] {left right : Except ε α} (agree : Agree left right) :
    (∃ fault other, left = .error fault ∧ right = .error other ∧ fault ≈ other) ∨
    ∃ answer, left = .ok answer ∧ right = .ok answer := by
  -- An answer and a failure do not agree, so only two of the four cases are left.
  cases left with
  | error fault =>
    cases right with
    | error other => exact .inl ⟨fault, other, rfl, rfl, agree⟩
    | ok answer => exact agree.elim
  | ok answer =>
    cases right with
    | error other => exact agree.elim
    | ok same =>
      cases agree
      exact .inr ⟨answer, rfl, rfl⟩

/-- Outcomes that agree still do when their answers are used in the same way. -/
theorem Agree.bind [Setoid ε] {left right : Except ε α} (agree : Agree left right)
    (next : α → Except ε β) : Agree (left >>= next) (right >>= next) := by
  rcases agree.outcomes with ⟨fault, other, rfl, rfl, near⟩ | ⟨answer, rfl, rfl⟩
  · exact near
  · exact Agree.refl _

/-- Outcomes that agree still do when their answers are changed in the same way. -/
theorem Agree.map [Setoid ε] {left right : Except ε α} (agree : Agree left right)
    (change : α → β) : Agree (left.map change) (right.map change) := by
  rcases agree.outcomes with ⟨fault, other, rfl, rfl, near⟩ | ⟨answer, rfl, rfl⟩
  · exact near
  · exact Agree.refl _

/-- Move the position an outcome reports. -/
def advance (distance : Nat) (outcome : Except ε (α × Nat)) : Except ε (α × Nat) :=
  outcome.map fun answer => (answer.1, distance + answer.2)

/-- Positions move by the sum of two distances. -/
theorem advance_advance (far near : Nat) (outcome : Except ε (α × Nat)) :
    advance far (advance near outcome) = advance (far + near) outcome := by
  -- Only an answer carries a position, and addition is associative.
  cases outcome <;> simp [advance, Nat.add_assoc]

/--
A reader of the bytes of a buffer from a position up to a stop.

It reports a value and the position it stopped at, or fails.
It never moves backwards or past the stop, and nothing outside its window changes what it does, apart from the wording of a failure.
-/
structure Scan (ε : Type) [Setoid ε] (α : Type) where
  /-- Read from a buffer, starting at a position and stopping before another. -/
  run : Bytes → Nat → Nat → Except ε (α × Nat)
  /-- The position reported lies in the window. -/
  inside : ∀ {buf pos stop value next}, pos ≤ stop → stop ≤ buf.length →
    run buf pos stop = .ok (value, next) → pos ≤ next ∧ next ≤ stop
  /-- Reading up to the end of the buffer is reading the suffix on its own. -/
  suffixed : ∀ {buf pos}, pos ≤ buf.length →
    run buf pos buf.length = advance pos (run (buf.drop pos) 0 (buf.length - pos))
  /-- Reading up to an earlier stop agrees with reading the window on its own. -/
  windowed : ∀ {buf pos stop}, pos ≤ stop → stop ≤ buf.length →
    Agree (run buf pos stop) (advance pos (run (slice buf pos stop) 0 (stop - pos)))

namespace Scan

variable [Setoid ε]

/-- A reader that does in place exactly what it does on its window alone. -/
def exact (run : Bytes → Nat → Nat → Except ε (α × Nat))
    (inside : ∀ {buf pos stop value next}, pos ≤ stop → stop ≤ buf.length →
      run buf pos stop = .ok (value, next) → pos ≤ next ∧ next ≤ stop)
    (moved : ∀ {buf pos stop}, pos ≤ stop → stop ≤ buf.length →
      run buf pos stop = advance pos (run (slice buf pos stop) 0 (stop - pos))) : Scan ε α where
  -- Equality with the reading of the window gives both of the laws about what lies outside it.
  run := run
  inside := inside
  suffixed within := by rw [moved within (Nat.le_refl _), slice_to_end]
  windowed ordered within := by
    rw [moved ordered within]
    exact Agree.refl _

/-- Reading from inside a window agrees with reading there from inside the window on its own. -/
theorem run_within (reader : Scan ε α) {buf : Bytes} {pos stop distance : Nat}
    (inner : distance ≤ stop - pos) (ordered : pos ≤ stop) (within : stop ≤ buf.length) :
    Agree (reader.run buf (pos + distance) stop)
      (advance pos (reader.run (slice buf pos stop) distance (stop - pos))) := by
  -- Both readings agree with the one of what the window holds from that place on.
  have width := @slice_length buf pos stop within
  have behind : (slice buf pos stop).drop distance = slice buf (pos + distance) stop := by
    simp only [slice, List.drop_take, List.drop_drop, Nat.sub_add_eq]
  have short := @suffixed _ _ _ reader (slice buf pos stop) distance (by omega)
  have long := reader.windowed (show pos + distance ≤ stop by omega) within
  rw [width, behind] at short
  rwa [short, advance_advance, ← Nat.sub_add_eq]

/-- Take over an outcome without reading. -/
def lift (outcome : Except ε α) : Scan ε α where
  -- The position does not move, so each law is about the outcome alone.
  run _ pos _ := outcome.map fun value => (value, pos)
  inside ordered _ read := by
    obtain ⟨value, -, same⟩ := map_eq_ok.mp read
    cases same
    exact ⟨Nat.le_refl _, ordered⟩
  suffixed _ := by cases outcome <;> rfl
  windowed _ _ := by
    cases outcome with
    | error fault => exact Setoid.refl fault
    | ok value => rfl

/-- Read on from where the first reader stopped. -/
def bindRun (first : Scan ε α) (next : α → Scan ε β) (buf : Bytes) (pos stop : Nat) :
    Except ε (β × Nat) :=
  -- The stop stays the same: both readers are confined to one window.
  first.run buf pos stop >>= fun answer => (next answer.1).run buf answer.2 stop

section Bind

variable {first : Scan ε α} {next : α → Scan ε β} {buf : Bytes} {pos stop : Nat}

/-- Two readers in turn stop inside the window. -/
theorem bindRun_inside {value : β} {last : Nat} (ordered : pos ≤ stop) (within : stop ≤ buf.length)
    (read : bindRun first next buf pos stop = .ok (value, last)) : pos ≤ last ∧ last ≤ stop := by
  -- The second window begins where the first reader stopped, which is inside the first window.
  obtain ⟨⟨value, middle⟩, begun, ended⟩ := bind_eq_ok.mp read
  obtain ⟨forward, short⟩ := first.inside ordered within begun
  obtain ⟨further, last⟩ := (next value).inside short within ended
  exact ⟨Nat.le_trans forward further, last⟩

/-- Two readers in turn read a suffix as they read the buffer. -/
theorem bindRun_suffixed (within : pos ≤ buf.length) : bindRun first next buf pos buf.length =
    advance pos (bindRun first next (buf.drop pos) 0 (buf.length - pos)) := by
  -- Both readers are moved to the suffix, and the two distances add up.
  have width : (buf.drop pos).length = buf.length - pos := List.length_drop
  unfold bindRun
  rw [first.suffixed within]
  cases begun : first.run (buf.drop pos) 0 (buf.length - pos) with
  | error fault => rfl
  | ok answer =>
    obtain ⟨value, middle⟩ := answer
    obtain ⟨-, short⟩ := first.inside (Nat.zero_le _) (Nat.le_of_eq width.symm) begun
    have inner := @suffixed _ _ _ (next value) (buf.drop pos) middle (by omega)
    have outer := (next value).suffixed (by omega : pos + middle ≤ buf.length)
    rw [width, List.drop_drop] at inner
    rw [Nat.sub_add_eq, ← advance_advance, ← inner] at outer
    exact outer

/-- Two readers in turn read a window as they read the buffer, or both fail. -/
theorem bindRun_windowed (ordered : pos ≤ stop) (within : stop ≤ buf.length) :
    Agree (bindRun first next buf pos stop)
      (advance pos (bindRun first next (slice buf pos stop) 0 (stop - pos))) := by
  -- What the first reader does on the window alone decides the case, since both runs agree on it.
  have width := @slice_length buf pos stop within
  have front := first.windowed ordered within
  unfold bindRun
  cases begun : first.run (slice buf pos stop) 0 (stop - pos) with
  -- A failure on the window is a failure in place, and neither run reaches the second reader.
  | error fault =>
    rw [begun] at front
    cases moved : first.run buf pos stop with
    | error other =>
      rw [moved] at front
      exact front
    | ok answer =>
      rw [moved] at front
      exact front.elim
  | ok answer =>
    obtain ⟨value, middle⟩ := answer
    obtain ⟨-, short⟩ := first.inside (Nat.zero_le _) (Nat.le_of_eq width.symm) begun
    rw [begun] at front
    cases moved : first.run buf pos stop with
    | error other =>
      rw [moved] at front
      exact front.elim
    | ok answer =>
      rw [moved] at front
      cases front
      -- The second reader starts inside the window, where it agrees with itself on the window alone.
      exact (next value).run_within (show middle ≤ stop - pos by omega) ordered within

end Bind

/-- One reader after another, the second chosen by what the first has read. -/
protected def bind (first : Scan ε α) (next : α → Scan ε β) : Scan ε β where
  run := bindRun first next
  inside := bindRun_inside
  suffixed := bindRun_suffixed
  windowed := bindRun_windowed

instance : Monad (Scan ε) where
  pure value := lift (.ok value)
  bind := Scan.bind

/-- Fail without reading. -/
def fail (fault : ε) : Scan ε α := lift (.error fault)

/-- Fail when a condition holds, and read nothing. -/
def failIf (refused : Prop) [Decidable refused] (fault : ε) : Scan ε Unit :=
  -- The check is made where the reader stands, so it neither needs nor consumes bytes.
  lift (raiseIf refused fault)

/-- What a reader does with a whole byte string: the value and the bytes it leaves. -/
def on (reader : Scan ε α) (window : Bytes) : Except ε (α × Bytes) :=
  -- The bytes left are reported in place of the position, so results compose as suffixes.
  (reader.run window 0 window.length).map fun answer => (answer.1, window.drop answer.2)

/-- Reading to the end of a buffer is reading the suffix and translating what is left. -/
theorem run_eq_on (reader : Scan ε α) {buf : Bytes} {pos : Nat} (within : pos ≤ buf.length) :
    reader.run buf pos buf.length =
      (reader.on (buf.drop pos)).map fun answer => (answer.1, buf.length - answer.2.length) := by
  -- The bytes left after a read are the suffix without the bytes read.
  have width : (buf.drop pos).length = buf.length - pos := List.length_drop
  rw [reader.suffixed within]
  simp only [on, width]
  cases read : reader.run (buf.drop pos) 0 (buf.length - pos) with
  | error fault => rfl
  | ok answer =>
    obtain ⟨-, short⟩ := reader.inside (Nat.zero_le _) (Nat.le_of_eq width.symm) read
    simp only [advance, map_ok, List.length_drop, Except.ok.injEq, Prod.mk.injEq, true_and]
    omega

/-- What a reader leaves is a suffix of what it was given. -/
theorem on_suffix {reader : Scan ε α} {window rest : Bytes} {value : α}
    (read : reader.on window = .ok (value, rest)) : rest <:+ window := by
  -- What is left is the window from the reported position on.
  obtain ⟨⟨_, next⟩, -, same⟩ := map_eq_ok.mp read
  cases same
  exact List.drop_suffix _ _

/-- An outcome that is handed on takes nothing from the window. -/
@[simp] theorem on_lift (outcome : Except ε α) (window : Bytes) :
    (lift outcome).on window = outcome.map fun value => (value, window) := by
  cases outcome <;> rfl

/-- A value that is returned takes nothing from the window. -/
@[simp] theorem on_pure (value : α) (window : Bytes) :
    (pure value : Scan ε α).on window = .ok (value, window) := rfl

/-- A failure is raised whatever the window is. -/
@[simp] theorem on_fail (fault : ε) (window : Bytes) :
    (fail fault : Scan ε α).on window = .error fault := rfl

/-- A failure is raised when the condition holds, whatever the window is. -/
@[simp] theorem on_failIf {refused : Prop} [Decidable refused] (fault : ε) (window : Bytes) :
    (failIf refused fault).on window = (raiseIf refused fault).map fun _ => ((), window) :=
  on_lift _ _

/-- A check answers when its condition does not hold, and leaves everything. -/
@[simp] theorem on_failIf_eq_ok {refused : Prop} [Decidable refused] {fault : ε}
    {window left : Bytes} {answer : Unit} :
    (failIf refused fault).on window = .ok (answer, left) ↔ ¬ refused ∧ window = left := by
  -- The two cases are the two branches of the check.
  by_cases held : refused <;> simp [raiseIf, held]

/-- The second reader continues with what the first one left. -/
@[simp] theorem on_bind (first : Scan ε α) (next : α → Scan ε β) (window : Bytes) :
    (first >>= next).on window = first.on window >>= fun answer => (next answer.1).on answer.2 := by
  -- The second reader runs on the suffix, and its position is translated back to the window.
  have whole : (first >>= next).on window = (first.run window 0 window.length >>= fun answer =>
      (next answer.1).run window answer.2 window.length).map
        fun answer => (answer.1, window.drop answer.2) := rfl
  have front : first.on window =
      (first.run window 0 window.length).map fun answer => (answer.1, window.drop answer.2) := rfl
  rw [whole, front]
  cases begun : first.run window 0 window.length with
  | error fault => rfl
  | ok answer =>
    obtain ⟨value, middle⟩ := answer
    obtain ⟨-, short⟩ := first.inside (Nat.zero_le _) (Nat.le_refl _) begun
    simp only [ok_bind, map_ok]
    rw [(next value).run_eq_on short]
    cases ended : (next value).on (window.drop middle) with
    | error fault => rfl
    | ok answer =>
      -- The position reported is where the suffix left by the second reader begins.
      have suffix := (on_suffix ended).trans (List.drop_suffix _ _)
      simp only [map_ok, ← List.suffix_iff_eq_drop.mp suffix]

end Scan

end Wire
