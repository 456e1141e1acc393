import Zmux.Codec.VarintLaws

/-! The encoder and the decoder of integers are each other's inverse, and fail outside their domains only. -/

namespace Zmux

open Wire

/-- A width holds a value exactly when the shortest form of the value is no wider. -/
theorem legal_iff_shortest_le {value width : Nat} (fits : value ≤ maxVarint)
    (listed : width ∈ [1, 2, 4, 8]) : VarintLegal value width ↔ varintShortest value ≤ width := by
  constructor
  · intro legal
    exact varintFormat.shortest_le legal
  · intro wide
    -- Each threshold of the shortest width is the capacity of the width below it.
    have widths : width = 1 ∨ width = 2 ∨ width = 4 ∨ width = 8 := by simpa using listed
    have largest : maxVarint = 4611686018427387903 := rfl
    refine ⟨widths, ?_⟩
    rcases widths with rfl | rfl | rfl | rfl <;> norm_num [varintShortest] at wide ⊢ <;>
      split_ifs at wide <;> omega

/-- A value can be measured exactly when it is in range. -/
theorem varintLen_eq_error {value : Int} :
    (∃ fault, varintLen value = .error fault) ↔ value < 0 ∨ value > maxVarint := by
  -- Behind the check of the range every branch answers.
  unfold varintLen
  split
  · rename_i outside
    simpa using outside
  · rename_i inside
    simp only [inside, iff_false]
    intro failed
    obtain ⟨fault, failed⟩ := failed
    split_ifs at failed

/-- A value in range is encoded in the widths that hold it, and in no others. -/
theorem encodeVarint_some_eq_ok {value width : Nat} (fits : value ≤ maxVarint) :
    (∃ encoded, encodeVarint value (some width) = .ok encoded) ↔
      width ∈ [1, 2, 4, 8] ∧ varintShortest value ≤ width := by
  constructor
  · intro written
    obtain ⟨encoded, written⟩ := written
    have need : varintLen value = .ok (varintShortest value) := varintLen_eq_ok.mpr ⟨fits, rfl⟩
    simp only [encodeVarint, need, ok_bind, Option.getD_some, bind_eq_ok, raiseIf_eq_ok] at written
    -- The check of the width passed, which is both halves of the condition.
    obtain ⟨_, accepted, -⟩ := written
    rw [not_or, not_not, Nat.not_lt] at accepted
    exact accepted
  · intro given
    rcases given with ⟨listed, wide⟩
    exact ⟨_, encodeVarint_width ((legal_iff_shortest_le fits listed).mpr wide)⟩

/-- The encoder raises for a value out of range, and for a width that is not one or is too narrow. -/
theorem encodeVarint_some_eq_error (value : Int) (width : Nat) :
    (∃ fault, encodeVarint value (some width) = .error fault) ↔
      (value < 0 ∨ value > maxVarint) ∨ width ∉ [1, 2, 4, 8] ∨
        ∃ need, varintLen value = .ok need ∧ width < need := by
  by_cases outside : value < 0 ∨ value > maxVarint
  -- A value that cannot be measured is refused before the width is looked at.
  · obtain ⟨fault, failed⟩ := varintLen_eq_error.mpr outside
    simp [outside, encodeVarint, failed]
  · obtain ⟨number, rfl⟩ := Int.eq_ofNat_of_zero_le (show 0 ≤ value by omega)
    have fits : number ≤ maxVarint := by omega
    have need : varintLen number = .ok (varintShortest number) := varintLen_eq_ok.mpr ⟨fits, rfl⟩
    have answers := @encodeVarint_some_eq_ok number width fits
    -- What is not refused is encoded.
    cases written : encodeVarint number (some width) with
    | error fault =>
      simp only [written, reduceCtorEq, exists_false, false_iff, not_and, Nat.not_le] at answers
      simp only [Except.error.injEq, exists_eq', need, Except.ok.injEq, exists_eq_left', true_iff]
      right
      by_cases listed : width ∈ [1, 2, 4, 8]
      · exact .inr (answers listed)
      · exact .inl listed
    | ok encoded =>
      simp only [written, Except.ok.injEq, exists_eq', true_iff] at answers
      rcases answers with ⟨listed, wide⟩
      simp only [reduceCtorEq, exists_false, need, Except.ok.injEq, exists_eq_left', false_iff]
      rintro (range | missing | narrow)
      · exact outside range
      · exact missing listed
      · omega

/-- Without a width the encoder raises for the values out of range only. -/
theorem encodeVarint_eq_error (value : Int) :
    (∃ fault, encodeVarint value = .error fault) ↔ value < 0 ∨ value > maxVarint := by
  by_cases outside : value < 0 ∨ value > maxVarint
  · obtain ⟨fault, failed⟩ := varintLen_eq_error.mpr outside
    simp [outside, encodeVarint, failed]
  -- A value in range has a shortest form.
  · obtain ⟨number, rfl⟩ := Int.eq_ofNat_of_zero_le (show 0 ≤ value by omega)
    have written := encodeVarint_shortest (show number ≤ maxVarint by omega)
    simp only [written, reduceCtorEq, exists_false, false_iff]
    exact outside

/-- The decoder raises exactly where the buffer ends before the integer does. -/
theorem decodeVarint_eq_error_iff (buf : Bytes) (pos : Nat) (code : TransportError) :
    (∃ fault, decodeVarint buf pos code = .error fault) ↔
      buf.length ≤ pos ∨ ∃ first, buf[pos]? = some first ∧
        buf.length < pos + announcedWidth first := by
  have starved : (∃ fault, decodeVarint buf pos code = .error fault) ↔
      ∀ first rest, buf.drop pos = first :: rest → rest.length + 1 < announcedWidth first := by
    simp only [decodeVarint_eq_error, exists_and_right, exists_eq, true_and]
  rw [starved]
  by_cases within : pos < buf.length
  -- Inside the buffer the suffix begins with the byte that announces the width.
  · have suffix := List.drop_eq_getElem_cons within
    have remaining : (buf.drop (pos + 1)).length = buf.length - (pos + 1) := List.length_drop
    rw [suffix, List.getElem?_eq_getElem within]
    constructor
    · intro short
      have short := short _ _ rfl
      exact .inr ⟨_, rfl, by omega⟩
    · intro ended first rest same
      obtain ⟨rfl, rfl⟩ := List.cons.inj same
      rcases ended with past | ⟨first, found, short⟩
      · omega
      · cases found
        omega
  · have ended : buf.drop pos = [] := List.drop_eq_nil_of_le (by omega)
    simp only [ended, List.nil_eq, reduceCtorEq, false_implies, implies_true, true_iff]
    exact .inl (by omega)

/-- An integer that was read is in range, and encoding it in its own width gives its bytes. -/
theorem decodeVarint_sound {buf : Bytes} {pos value next width : Nat} {code : TransportError}
    (decoded : decodeVarint buf pos code = .ok (value, next, width)) :
    value ≤ maxVarint ∧ varintLen value = .ok (varintShortest value) ∧
      varintShortest value ≤ width ∧ next = pos + width ∧
      encodeVarint value (some width) = .ok (slice buf pos next) := by
  obtain ⟨legal, rfl, rest, continues⟩ := decodeVarint_eq_ok.mp decoded
  have consumed := slice_front continues
  rw [varintForm_length legal] at consumed
  -- The buffer continues with the form of the value, which is what the encoder writes.
  refine ⟨legal_shortest_iff.mp (varintFormat.legal_shortest legal), varintLen_legal legal,
    varintFormat.shortest_le legal, rfl, ?_⟩
  rw [encodeVarint_width legal, consumed]

/-- What the encoder writes in a width is read back with that width, whatever follows. -/
theorem decodeVarint_encodeVarint {value width : Nat} (fits : value ≤ maxVarint)
    (listed : width ∈ [1, 2, 4, 8]) (wide : varintShortest value ≤ width) (rest : Bytes)
    (code : TransportError) : ∃ encoded, encodeVarint value (some width) = .ok encoded ∧
      decodeVarint (encoded ++ rest) 0 code = .ok (value, width, width) := by
  have legal := (legal_iff_shortest_le fits listed).mpr wide
  refine ⟨_, encodeVarint_width legal, ?_⟩
  -- The form stands at the front of the buffer.
  have decoded := decodeVarint_form legal [] rest code
  rwa [List.nil_append, List.length_nil, Nat.zero_add] at decoded

/-- Integers and their widths correspond to byte strings one to one, and nothing else is accepted. -/
theorem varint_bijection :
    (∀ (value width need : Nat) (rest : Bytes) (code : TransportError), value ≤ maxVarint →
      width ∈ [1, 2, 4, 8] → varintLen value = .ok need → need ≤ width →
      ∃ encoded, encodeVarint value (some width) = .ok encoded ∧
        decodeVarint (encoded ++ rest) 0 code = .ok (value, width, width)) ∧
    (∀ (buf : Bytes) (pos value next width : Nat) (code : TransportError),
      decodeVarint buf pos code = .ok (value, next, width) →
      value ≤ maxVarint ∧ (∃ need, varintLen value = .ok need ∧ need ≤ width) ∧
        next = pos + width ∧ encodeVarint value (some width) = .ok (slice buf pos next)) ∧
    (∀ (buf : Bytes) (pos : Nat) (code : TransportError),
      (∃ fault, decodeVarint buf pos code = .error fault) ↔
        buf.length ≤ pos ∨ ∃ first, buf[pos]? = some first ∧
          buf.length < pos + announcedWidth first) ∧
    (∀ (value : Int) (width : Nat),
      (∃ fault, encodeVarint value (some width) = .error fault) ↔
        (value < 0 ∨ value > maxVarint) ∨ width ∉ [1, 2, 4, 8] ∨
          ∃ need, varintLen value = .ok need ∧ width < need) ∧
    ∀ value : Int, (∃ fault, encodeVarint value = .error fault) ↔
      value < 0 ∨ value > maxVarint := by
  refine ⟨?_, ?_, decodeVarint_eq_error_iff, encodeVarint_some_eq_error, encodeVarint_eq_error⟩
  · intro value width need rest code fits listed measured wide
    obtain ⟨-, rfl⟩ := varintLen_eq_ok.mp measured
    exact decodeVarint_encodeVarint fits listed wide rest code
  · intro buf pos value next width code decoded
    obtain ⟨fits, measured, wide, forward, written⟩ := decodeVarint_sound decoded
    exact ⟨fits, ⟨_, measured, wide⟩, forward, written⟩

end Zmux
