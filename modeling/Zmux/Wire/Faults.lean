import Zmux.Wire.Scan

/-! Conditions that hold of every failure of a computation, or of a reader on any window. -/

namespace Wire

variable {ε α β : Type} {cond : ε → Prop}

/-- Every failure of a computation satisfies a condition. -/
def Faults (outcome : Except ε α) (cond : ε → Prop) : Prop :=
  ∀ fault, outcome = .error fault → cond fault

/-- An outcome without failure has any property of failures. -/
theorem faults_ok (value : α) : Faults (.ok value : Except ε α) cond := by
  -- An answer is no failure.
  intro fault same
  cases same

/-- A failure has a property when it does. -/
theorem faults_error {fault : ε} (holds : cond fault) :
    Faults (.error fault : Except ε α) cond := by
  -- There is only one failure to speak of.
  intro other same
  cases same
  exact holds

/-- A failure that is raised has a property when it does under the condition. -/
theorem faults_raiseIf {refused : Prop} [Decidable refused] {fault : ε}
    (holds : refused → cond fault) : Faults (raiseIf refused fault) cond := by
  -- The check fails only when its condition holds, so the proof may assume it.
  intro other same
  obtain ⟨held, rfl⟩ := raiseIf_eq_error.mp same
  exact holds held

/-- A sequence fails as one of its steps does. -/
theorem Faults.bind {first : Except ε α} {next : α → Except ε β} (begun : Faults first cond)
    (ended : ∀ value, first = .ok value → Faults (next value) cond) :
    Faults (first >>= next) cond := by
  intro fault failed
  cases bind_eq_error.mp failed with
  | inl early => exact begun fault early
  | inr late =>
    obtain ⟨value, answered, late⟩ := late
    exact ended value answered fault late

/-- Changing the value of an outcome leaves its failures. -/
theorem Faults.map {outcome : Except ε α} (change : α → β) (holds : Faults outcome cond) :
    Faults (outcome.map change) cond := by
  -- Changing the answer leaves every failure as it is.
  intro fault failed
  exact holds fault (map_eq_error.mp failed)

/-- Failures that have a property have a weaker one. -/
theorem Faults.mono {outcome : Except ε α} {weaker : ε → Prop} (holds : Faults outcome cond)
    (implies : ∀ fault, cond fault → weaker fault) : Faults outcome weaker := by
  intro fault failed
  exact implies fault (holds fault failed)

variable [Setoid ε]

/-- Every failure of a reader satisfies a condition, whatever the window. -/
def Scan.Faults (reader : Scan ε α) (cond : ε → Prop) : Prop :=
  -- Failures may depend on the window, so the condition is asked of all of them.
  ∀ window, Wire.Faults (reader.on window) cond

namespace Scan

/-- A reader that returns does not fail. -/
theorem faults_pure (value : α) : (pure value : Scan ε α).Faults cond := by
  -- Answering without reading cannot fail.
  intro window
  rw [on_pure]
  exact faults_ok _

/-- A reader that may raise a failure fails with it only. -/
theorem faults_failIf {refused : Prop} [Decidable refused] {fault : ε}
    (holds : cond fault) : (failIf refused fault).Faults cond := by
  -- The reader makes the check and nothing else.
  intro window
  rw [on_failIf]
  exact (faults_raiseIf fun _ => holds).map _

/-- A reader that hands on an outcome fails as the outcome does. -/
theorem faults_lift {outcome : Except ε α} (holds : Wire.Faults outcome cond) :
    (lift outcome).Faults cond := by
  -- On every window the reader takes over one outcome.
  intro window
  rw [on_lift]
  exact holds.map _

/-- A sequence of readers fails as one of them does on some window. -/
theorem Faults.bind {first : Scan ε α} {next : α → Scan ε β} (begun : first.Faults cond)
    (ended : ∀ value, (next value).Faults cond) : (first >>= next).Faults cond := by
  intro window
  rw [on_bind]
  exact (begun window).bind fun answer _ => ended answer.1 answer.2

/-- Behind a check, the rest may rely on its condition not holding. -/
theorem Faults.check {refused : Prop} [Decidable refused] {fault : ε} {next : Unit → Scan ε α}
    (holds : cond fault) (passed : ¬ refused → (next ()).Faults cond) :
    (failIf refused fault >>= next).Faults cond := by
  -- The second reader runs only after the check has passed.
  intro window
  rw [on_bind]
  refine Wire.Faults.bind (faults_failIf holds window) ?_
  intro answer read
  exact passed (on_failIf_eq_ok.mp read).1 answer.2

/-- A reader of two branches fails as one of them does. -/
theorem Faults.ite {chosen : Prop} [Decidable chosen] {left right : Scan ε α}
    (holds : left.Faults cond) (other : right.Faults cond) :
    (if chosen then left else right).Faults cond := by
  -- The choice does not depend on the window.
  split
  · exact holds
  · exact other

end Scan

end Wire
