import Mathlib.Data.List.Forall2
import Zmux.Wire.Bytes

/-! Two computations that fail alike, or answer alike. -/

namespace Wire

section Readings

variable {α β γ δ : Type} {R : α → β → Prop} {S : γ → δ → Prop}

/-- What is done with related answers is related when it is for any two of them. -/
theorem rel_bind {first : Option α} {second : Option β} {next : α → Option γ} {other : β → Option δ}
    (same : Option.Rel R first second)
    (onward : ∀ left right, R left right → Option.Rel S (next left) (other right)) :
    Option.Rel S (first.bind next) (second.bind other) := by
  -- Both answer or neither does.
  cases same with
  | none => exact .none
  | some related => exact onward _ _ related

/-- What is alike stays alike when it is changed alike. -/
theorem rel_map {first : Option α} {second : Option β} {change : α → γ} {other : β → δ}
    (same : Option.Rel R first second)
    (onward : ∀ left right, R left right → S (change left) (other right)) :
    Option.Rel S (first.map change) (second.map other) := by
  -- Both answer or neither does.
  cases same with
  | none => exact .none
  | some related => exact .some (onward _ _ related)

/-- Two equal answers are related when every answer is related to itself. -/
theorem rel_of_eq {R : α → α → Prop} (itself : ∀ answer, R answer answer)
    {first second : Option α} (same : first = second) : Option.Rel R first second := by
  subst same
  cases first with
  | none => exact .none
  | some answer => exact .some (itself answer)

/-- Lists are read alike, item by item, when their items are. -/
theorem rel_mapM {read : γ → Option α} {other : δ → Option β} {items : List γ} {others : List δ}
    (each : List.Forall₂ (fun item more => Option.Rel R (read item) (other more)) items others) :
    Option.Rel (List.Forall₂ R) (items.mapM read) (others.mapM other) := by
  -- The induction is on the items, side by side.
  induction each with
  | nil => exact .some .nil
  | cons head tail ih =>
    rw [List.mapM_cons, List.mapM_cons]
    -- The first items are read alike, and then the rest of the lists.
    refine rel_bind head ?_
    intro left right related
    refine rel_bind ih ?_
    intro lefts rights list
    exact .some (.cons related list)

end Readings

variable {ε α β : Type}

/-- Two outcomes that are one failure, or two lists of one length. -/
def SameLength (first second : Except ε (List α)) : Prop :=
  first.map List.length = second.map List.length

namespace SameLength

variable {first second third : Except ε (List α)}

/-- An outcome is as long as itself. -/
theorem refl (outcome : Except ε (List α)) : SameLength outcome outcome := rfl

/-- Two outcomes are as long as each other in either order. -/
theorem symm (same : SameLength first second) : SameLength second first := Eq.symm same

/-- Outcomes that are as long as one are as long as each other. -/
theorem trans (same : SameLength first second) (next : SameLength second third) :
    SameLength first third := Eq.trans same next

/-- Two answers are alike exactly when they have one length. -/
@[simp] theorem ok_iff {left right : List α} :
    SameLength (.ok left : Except ε (List α)) (.ok right) ↔ left.length = right.length := by
  rw [SameLength, map_ok, map_ok, Except.ok.injEq]

/-- What is done with lists of one length is alike when it is alike for any two such lists. -/
theorem bind {next other : List α → Except ε (List β)} (same : SameLength first second)
    (onward : ∀ left right, left.length = right.length → SameLength (next left) (other right)) :
    SameLength (first >>= next) (second >>= other) := by
  -- Either both fail with one fault, or both go on with lists of one length.
  cases first with
  | error fault =>
    cases second with
    | error other =>
      rw [SameLength, map_error, map_error, Except.error.injEq] at same
      rw [same]
      exact refl _
    | ok right => cases same
  | ok left =>
    cases second with
    | error fault => cases same
    | ok right => exact onward left right (ok_iff.mp same)

/-- What is done with the number of elements is the same for both. -/
theorem bind_length (same : SameLength first second) (next : Nat → Except ε β) :
    (first >>= fun list => next list.length) = (second >>= fun list => next list.length) := by
  -- Either way only the length of the answer is passed on.
  have through : ∀ outcome : Except ε (List α),
      (outcome >>= fun list => next list.length) = (outcome.map List.length >>= next) := by
    intro outcome
    cases outcome <;> rfl
  rw [through, through, show first.map List.length = second.map List.length from same]

/-- What is done with one answer is alike when it is for every answer. -/
theorem bind_same {γ : Type} (outcome : Except ε γ) {next other : γ → Except ε (List α)}
    (onward : ∀ answer, SameLength (next answer) (other answer)) :
    SameLength (outcome >>= next) (outcome >>= other) := by
  cases outcome with
  | error fault => exact refl _
  | ok answer => exact onward answer

/-- Lists that are put one after the other have one length when their parts do. -/
theorem append {front other : Except ε (List α)} (ahead : SameLength front other)
    (same : SameLength first second) :
    SameLength (do let head ← front; let tail ← first; return head ++ tail)
      (do let head ← other; let tail ← second; return head ++ tail) := by
  apply bind ahead
  intro head more heads
  apply bind same
  intro tail rest tails
  rw [pure_ok, pure_ok, ok_iff, List.length_append, List.length_append, heads, tails]

end SameLength

end Wire
