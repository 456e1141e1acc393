import Zmux.Wire.Layout

/-! Sequences of numbered values, each behind its number and its byte count. -/

namespace Wire

variable {format : NumberFormat}

/-- A number and a value, with the widths in which the number and the byte count are sent. -/
@[ext] structure Tlv (format : NumberFormat) where
  number : Nat
  value : Bytes
  numberWidth : Nat
  countWidth : Nat
  /-- The number has a form of its width. -/
  numberLegal : format.Legal number numberWidth
  /-- The byte count of the value has a form of its width. -/
  countLegal : format.Legal value.length countWidth

namespace Tlv

/-- The bytes a numbered value is sent as. -/
def bytes (tlv : Tlv format) : Bytes :=
  -- The value stands for itself, and only its count says where it ends.
  format.form tlv.number tlv.numberWidth ++
    (format.form tlv.value.length tlv.countWidth ++ tlv.value)

/-- Numbered values sent one after the other. -/
def block : List (Tlv format) → Bytes
  | [] => []
  | tlv :: tlvs => tlv.bytes ++ block tlvs

/-- A value is as long as the bytes behind its count. -/
theorem bytes_length (tlv : Tlv format) :
    tlv.bytes.length = tlv.numberWidth + (tlv.countWidth + tlv.value.length) := by
  -- Both forms are as wide as they say.
  simp only [bytes, List.length_append, format.form_length tlv.numberLegal,
    format.form_length tlv.countLegal]

/-- Numbered values are told apart whatever follows them. -/
theorem bytes_cancel {first second : Tlv format} {rest tail : Bytes}
    (same : first.bytes ++ rest = second.bytes ++ tail) : first = second ∧ rest = tail := by
  -- The two numbers are told apart first, then the two counts, and then the values have one width.
  simp only [bytes, List.append_assoc] at same
  obtain ⟨number, width, behind⟩ := format.decodable first.numberLegal second.numberLegal same
  obtain ⟨count, narrow, values⟩ := format.decodable first.countLegal second.countLegal behind
  obtain ⟨value, ended⟩ := List.append_inj values count
  exact ⟨Tlv.ext number value width narrow, ended⟩

end Tlv

/-- A layout of a number and a sized value is spelled by the bytes of a numbered value. -/
theorem starts_tlv_iff {number : Nat} {value window left : Bytes} :
    Starts format (.num number (.sized (.bytes value .done) .done)) window left ↔
      ∃ tlv : Tlv format, tlv.number = number ∧ tlv.value = value ∧ window = tlv.bytes ++ left := by
  constructor
  · intro starts
    obtain ⟨width, behind, legal, same, more⟩ := starts_num_iff.mp starts
    obtain ⟨inner, narrow, last, part, lawful, rest, ended⟩ := starts_sized_iff.mp more
    -- Literal bytes are spelled by themselves, and nothing stands behind them.
    have literal : inner = value := by simpa using part
    subst literal
    refine ⟨⟨number, inner, width, narrow, legal, lawful⟩, rfl, rfl, ?_⟩
    rw [same, rest, starts_done_iff.mp ended]
    simp only [Tlv.bytes, List.append_assoc]
  · intro found
    rcases found with ⟨tlv, rfl, rfl, rfl⟩
    refine starts_num_iff.mpr ⟨_, _, tlv.numberLegal, ?_, starts_sized_iff.mpr
      ⟨tlv.value, _, left, by simp, tlv.countLegal, rfl, starts_done_iff.mpr rfl⟩⟩
    simp only [Tlv.bytes, List.append_assoc]

section Positive

-- No form of a number is empty.
variable (positive : ∀ {number width}, format.Legal number width → 0 < width)

include positive

/-- An element has bytes. -/
theorem Tlv.bytes_ne_nil (tlv : Tlv format) : tlv.bytes ≠ [] := by
  -- The form of the number has at least one byte.
  intro empty
  have long := tlv.bytes_length
  have wide := positive tlv.numberLegal
  rw [empty, List.length_nil] at long
  omega

/-- A block is sent by one sequence of numbered values only. -/
theorem Tlv.block_injective {first second : List (Tlv format)}
    (same : block first = block second) : first = second := by
  -- The induction is on one sequence, and the other one loses the same value at its front.
  induction first generalizing second with
  | nil =>
    cases second with
    | nil => rfl
    | cons tlv second =>
      have empty := List.append_eq_nil_iff.mp same.symm
      exact absurd empty.1 (tlv.bytes_ne_nil positive)
  | cons tlv first ih =>
    cases second with
    | nil =>
      have empty := List.append_eq_nil_iff.mp same
      exact absurd empty.1 (tlv.bytes_ne_nil positive)
    | cons other second =>
      obtain ⟨rfl, rest⟩ := bytes_cancel same
      rw [ih rest]

end Positive

end Wire
