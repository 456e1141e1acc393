import Zmux.Wire.Bytes

/-! Checks that collect reports of what is wrong, and go on unless they crash. -/

namespace Wire

variable {ε ρ α : Type}

/-- The reports of a comparison, none if it comes out right. -/
def reportIf (wrong : Prop) [Decidable wrong] (report : ρ) : List ρ :=
  if wrong then [report] else []

/-- Nothing is reported when nothing is wrong. -/
@[simp] theorem reportIf_eq_nil {wrong : Prop} [Decidable wrong] {report : ρ} :
    reportIf wrong report = [] ↔ ¬ wrong := by
  rw [reportIf]
  split <;> simp [*]

/-- What is wrong under two names is reported alike. -/
theorem reportIf_congr {wrong other : Prop} [Decidable wrong] [Decidable other] {report : ρ}
    (same : wrong ↔ other) : reportIf wrong report = reportIf other report := by
  rw [reportIf, reportIf]
  by_cases held : wrong
  · rw [if_pos held, if_pos (same.mp held)]
  · rw [if_neg held, if_neg (fun other => held (same.mpr other))]

namespace Reports

variable {first second : Except ε (List ρ)}

/-- A check that came to its end and found nothing. -/
def Clean (reports : Except ε (List ρ)) : Prop := reports = .ok []

/-- A check without reports is clean. -/
@[simp] theorem clean_nil : Clean (.ok [] : Except ε (List ρ)) := rfl

/-- A check is clean when its reports are none. -/
theorem clean_ok {reports : List ρ} : Clean (.ok reports : Except ε (List ρ)) ↔ reports = [] := by
  rw [Clean, Except.ok.injEq]

/-- One check after the other. -/
def both (first second : Except ε (List ρ)) : Except ε (List ρ) := do
  let front ← first
  let back ← second
  return front ++ back

/-- Two checks are clean when each of them is. -/
@[simp] theorem clean_both :
    Clean (both first second) ↔ Clean first ∧ Clean second := by
  simp only [Clean, both, bind_eq_ok, pure_ok, Except.ok.injEq, List.append_eq_nil_iff]
  constructor
  · rintro ⟨front, checked, back, further, rfl, rfl⟩
    exact ⟨checked, further⟩
  · rintro ⟨checked, further⟩
    exact ⟨[], checked, [], further, rfl, rfl⟩

/-- The same check of every item, from the first to the last. -/
def each (check : α → Except ε (List ρ)) : List α → Except ε (List ρ)
  | [] => .ok []
  | item :: items => both (check item) (each check items)

/-- A check of several items is clean when that of each is. -/
@[simp] theorem clean_each {check : α → Except ε (List ρ)} {items : List α} :
    Clean (each check items) ↔ ∀ item ∈ items, Clean (check item) := by
  induction items with
  | nil => simp [each]
  | cons item items ih => rw [each, clean_both, ih, List.forall_mem_cons]

/-- A check that reads something first is clean when what it reads makes it clean. -/
theorem clean_bind {start : Except ε α} {next : α → Except ε (List ρ)} :
    Clean (start >>= next) ↔ ∃ value, start = .ok value ∧ Clean (next value) := bind_eq_ok

end Reports

end Wire
