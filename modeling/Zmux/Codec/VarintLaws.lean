import Mathlib.Tactic.NormNum
import Zmux.Codec.Varint
import Zmux.Wire.Layout

/-! Variable-length integers are a number format, and the codec reads and writes exactly its forms. -/

namespace Zmux

open Wire

/-- A width is one of four, and a value fits the bits that the width prefix leaves. -/
def VarintLegal (value width : Nat) : Prop :=
  (width = 1 ∨ width = 2 ∨ width = 4 ∨ width = 8) ∧ value < 2 ^ (8 * width - 2)

/-- The two high bits name the width, and the remaining bits hold the value. -/
def varintForm (value width : Nat) : Bytes :=
  -- Only the first byte is special: the bytes behind it are plain digits of the value.
  UInt8.ofNat (64 * width.log2 + value / 256 ^ (width - 1)) :: bigEndian (width - 1) value

/-- The width of the shortest form. -/
def varintShortest (value : Nat) : Nat :=
  if value < 1 <<< 6 then 1
  else if value < 1 <<< 14 then 2
  else if value < 1 <<< 30 then 4
  else 8

/-- The two high bits of a byte count the multiples of 64 in it. -/
theorem high_bits (value : Nat) : value >>> 6 = value / 64 :=
  Nat.shiftRight_eq_div_pow value 6

/-- The low six bits of a byte are its remainder modulo 64. -/
theorem low_bits (value : Nat) : value &&& 0x3F = value % 64 :=
  Nat.and_two_pow_sub_one_eq_mod value 6

/-- Shifting a value up by one byte and setting that byte appends a base-256 digit. -/
theorem shift_or_byte (value : Nat) (byte : UInt8) :
    (value <<< 8) ||| byte.toNat = value * 256 + byte.toNat := by
  -- The byte occupies only the bits that the shift cleared.
  rw [← Nat.shiftLeft_add_eq_or_of_lt byte.toNat_lt, Nat.shiftLeft_eq]

/-- The loop over the remaining bytes reads base-256 digits. -/
theorem foldl_shift_or (start : Nat) (digits : Bytes) :
    digits.foldl (fun value byte => (value <<< 8) ||| byte.toNat) start = foldBytes start digits := by
  -- Each step of the loop is the step of the digit reader.
  simp only [shift_or_byte, foldBytes]

/-- A legal value has only six bits beyond the bytes that follow the first. -/
theorem high_digit_lt {value width : Nat} (legal : VarintLegal value width) :
    value / 256 ^ (width - 1) < 64 := by
  -- Each of the four widths leaves the value all its bits but two.
  obtain ⟨rfl | rfl | rfl | rfl, bound⟩ := legal <;> norm_num at bound ⊢ <;> omega

/-- The two high bits hold the binary logarithm of the width. -/
theorem width_eq_shift {value width : Nat} (legal : VarintLegal value width) :
    1 <<< width.log2 = width ∧ width.log2 ≤ 3 := by
  -- The widths are the powers of two from one to eight.
  obtain ⟨rfl | rfl | rfl | rfl, -⟩ := legal <;> decide

/-- The first byte of a form announces its width and holds the high digit of its value. -/
theorem varintForm_first {value width : Nat} (legal : VarintLegal value width) :
    1 <<< ((64 * width.log2 + value / 256 ^ (width - 1)) / 64) = width ∧
    (64 * width.log2 + value / 256 ^ (width - 1)) % 64 = value / 256 ^ (width - 1) ∧
    64 * width.log2 + value / 256 ^ (width - 1) < 256 := by
  have high := high_digit_lt legal
  obtain ⟨power, bound⟩ := width_eq_shift legal
  -- The high digit stays below the two bits that name the width.
  generalize value / 256 ^ (width - 1) = digit at high ⊢
  have announced : (64 * width.log2 + digit) / 64 = width.log2 := by omega
  rw [announced]
  exact ⟨power, by omega, by omega⟩

/-- A form has from one to eight bytes. -/
theorem varint_width {value width : Nat} (legal : VarintLegal value width) :
    0 < width ∧ width ≤ 8 := by
  -- The largest of the four widths is eight.
  rcases legal with ⟨widths, -⟩
  omega

/-- No form of an integer is empty. -/
theorem varint_positive {value width : Nat} (legal : VarintLegal value width) : 0 < width :=
  (varint_width legal).1

/-- A form has as many bytes as its width says. -/
theorem varintForm_length {value width : Nat} (legal : VarintLegal value width) :
    (varintForm value width).length = width := by
  -- One byte for the width bits, and the digits behind it.
  have positive := varint_positive legal
  simp only [varintForm, List.length_cons, bigEndian_length]
  omega

/-- A buffer whose bytes at a position start with a form decodes there to the form's value. -/
theorem decodeVarint_form {value width : Nat} (legal : VarintLegal value width)
    (front rest : Bytes) (code : TransportError) :
    decodeVarint (front ++ (varintForm value width ++ rest)) front.length code =
      .ok (value, front.length + width, width) := by
  obtain ⟨announced, high, small⟩ := varintForm_first legal
  have wide := varintForm_length legal
  have positive := varint_positive legal
  -- The first byte gives the width back, so the slice behind it is the rest of the form.
  have first : (UInt8.ofNat (64 * width.log2 + value / 256 ^ (width - 1))).toNat =
      64 * width.log2 + value / 256 ^ (width - 1) := UInt8.toNat_ofNat_of_lt' small
  have head : (front ++ (varintForm value width ++ rest))[front.length]? =
      some (UInt8.ofNat (64 * width.log2 + value / 256 ^ (width - 1))) := by
    simp [varintForm]
  have tail : slice (front ++ (varintForm value width ++ rest)) (front.length + 1)
      (front.length + width) = bigEndian (width - 1) value := by
    rw [slice_append_right]
    simp [slice, varintForm]
  have total : (front ++ (varintForm value width ++ rest)).length =
      front.length + (width + rest.length) := by
    simp [wide]
  have read : foldBytes (value / 256 ^ (width - 1)) (bigEndian (width - 1) value) = value := by
    rw [foldBytes_eq, bigEndian_length, foldBytes_bigEndian, Nat.div_add_mod']
  have start : ¬ front.length ≥ front.length + (width + rest.length) := by omega
  have stop : ¬ front.length + width > front.length + (width + rest.length) := by omega
  simp only [decodeVarint, raiseIf, total, start, if_false, ok_bind, item, head, first,
    high_bits, low_bits, announced, high, stop, tail, foldl_shift_or, read, pure_ok]

/-- The variable-length integers of the codec, as a number format. -/
def varintFormat : NumberFormat where
  Legal := VarintLegal
  form := varintForm
  shortest := varintShortest
  form_length := varintForm_length
  shortest_le {number width} legal := by
    obtain ⟨rfl | rfl | rfl | rfl, bound⟩ := legal <;>
      norm_num [varintShortest] at bound ⊢ <;> (repeat' split) <;> omega
  legal_shortest {number width} legal := by
    obtain ⟨rfl | rfl | rfl | rfl, bound⟩ := legal <;>
      norm_num [varintShortest, VarintLegal] at bound ⊢ <;> (repeat' split) <;> norm_num <;> omega
  downward smaller legal := ⟨legal.1, Nat.lt_of_le_of_lt smaller legal.2⟩
  decodable {left width right other rest tail} legal lawful same := by
    -- Equal byte strings decode equally, and the decoder gives value and width back.
    have first := decodeVarint_form legal [] rest FE
    have second := decodeVarint_form lawful [] tail FE
    rw [List.nil_append] at first second
    rw [same, second] at first
    simp only [Except.ok.injEq, Prod.mk.injEq] at first
    obtain ⟨rfl, -, rfl⟩ := first
    exact ⟨rfl, rfl, List.append_cancel_left same⟩

/-- The width that a first byte announces. -/
def announcedWidth (first : UInt8) : Nat := 1 <<< (first.toNat >>> 6)

/-- A first byte announces one of the four widths. -/
theorem announcedWidth_cases (first : UInt8) : announcedWidth first = 1 ∨
    announcedWidth first = 2 ∨ announcedWidth first = 4 ∨ announcedWidth first = 8 := by
  -- Two bits have four values, and each selects one width.
  have small := first.toNat_lt
  have high : first.toNat / 64 = 0 ∨ first.toNat / 64 = 1 ∨ first.toNat / 64 = 2 ∨
      first.toNat / 64 = 3 := by omega
  rcases high with high | high | high | high <;> simp [announcedWidth, high_bits, high]

/-- A first byte and as many bytes as it asks for are the form of a legal value. -/
theorem form_of_first (first : UInt8) (digits : Bytes)
    (wide : digits.length + 1 = announcedWidth first) :
    VarintLegal (foldBytes (first.toNat % 64) digits) (announcedWidth first) ∧
    varintForm (foldBytes (first.toNat % 64) digits) (announcedWidth first) = first :: digits := by
  -- The width less one is the number of digits, which hold the low part of the value.
  have below := foldBytes_lt digits
  have width : announcedWidth first - 1 = digits.length := by omega
  -- Dividing by the weight of the digits leaves the six bits of the first byte.
  have quotient : foldBytes (first.toNat % 64) digits / 256 ^ digits.length =
      first.toNat % 64 := by
    rw [foldBytes_eq, Nat.add_comm, Nat.add_mul_div_right _ _ (Nat.pow_pos (by decide)),
      Nat.div_eq_of_lt below, Nat.zero_add]
  have logarithm : (announcedWidth first).log2 = first.toNat / 64 := by
    rw [announcedWidth, high_bits, Nat.one_shiftLeft, Nat.log2_two_pow]
  constructor
  · refine ⟨announcedWidth_cases first, ?_⟩
    -- Six bits of the first byte and eight of every digit stay below the bound.
    have exponent : 8 * announcedWidth first - 2 = 6 + 8 * digits.length := by omega
    rw [exponent, Nat.pow_add, Nat.pow_mul, foldBytes_eq]
    have scaled := Nat.mul_le_mul_right (256 ^ digits.length)
      (show first.toNat % 64 ≤ 63 by omega)
    norm_num
    omega
  · have head : UInt8.ofNat (64 * (first.toNat / 64) + first.toNat % 64) = first := by
      rw [Nat.div_add_mod, UInt8.ofNat_toNat]
    rw [varintForm, width, quotient, logarithm, head, foldBytes_eq, bigEndian_add,
      bigEndian_foldBytes]

/-- The first byte and the digits of a form are its width and its value. -/
theorem varintForm_digits {value width : Nat} {first : UInt8} {digits : Bytes}
    (legal : VarintLegal value width) (form : varintForm value width = first :: digits) :
    width = announcedWidth first ∧ value = foldBytes (first.toNat % 64) digits := by
  -- The first byte announces the width, so its form is the one that these bytes make up.
  have wide := varintForm_length legal
  rw [form, List.length_cons] at wide
  have announced : announcedWidth first = width := by
    obtain ⟨power, -, small⟩ := varintForm_first legal
    have head := (List.cons.inj form).1
    rw [← head, announcedWidth, high_bits, UInt8.toNat_ofNat_of_lt' small, power]
  obtain ⟨lawful, same⟩ := form_of_first first digits (by omega)
  have both : varintForm value width ++ [] =
      varintForm (foldBytes (first.toNat % 64) digits) (announcedWidth first) ++ [] := by
    rw [form, same]
  exact ⟨announced.symm, (varintFormat.decodable legal lawful both).1⟩

/-- The decoder answers exactly where the buffer continues with a form. -/
theorem decodeVarint_eq_ok {buf : Bytes} {pos value next width : Nat} {code : TransportError} :
    decodeVarint buf pos code = .ok (value, next, width) ↔ VarintLegal value width ∧
      next = pos + width ∧ ∃ rest, buf.drop pos = varintForm value width ++ rest := by
  constructor
  · intro decoded
    simp only [decodeVarint, bind_eq_ok, raiseIf_eq_ok, pure_ok, Except.ok.injEq,
      Prod.mk.injEq, high_bits, low_bits, foldl_shift_or] at decoded
    obtain ⟨-, within, first, found, -, whole, rfl, rfl, rfl⟩ := decoded
    -- The position holds the first byte, so the suffix there begins with it.
    have head := drop_of_item found
    have announced : 1 <<< (first.toNat / 64) = announcedWidth first := by
      rw [announcedWidth, high_bits]
    rw [announced] at whole ⊢
    have cases := announcedWidth_cases first
    have wide : (slice buf (pos + 1) (pos + announcedWidth first)).length + 1 =
        announcedWidth first := by
      rw [slice_length (by omega)]
      omega
    obtain ⟨legal, form⟩ := form_of_first first _ wide
    refine ⟨legal, rfl, buf.drop (pos + announcedWidth first), ?_⟩
    rw [form, head, List.cons_append, slice]
    -- The digits and what follows them make up the suffix behind the first byte.
    have rejoin := List.take_append_drop (pos + announcedWidth first - (pos + 1))
      (buf.drop (pos + 1))
    rw [List.drop_drop] at rejoin
    have past : pos + 1 + (pos + announcedWidth first - (pos + 1)) =
        pos + announcedWidth first := by omega
    rw [past] at rejoin
    rw [rejoin]
  · intro found
    rcases found with ⟨legal, rfl, rest, continues⟩
    -- Splitting the buffer at the position puts the form behind a front of that length.
    have nonempty : buf.drop pos ≠ [] := by
      rw [continues]
      simp [varintForm]
    have within : pos < buf.length := by
      by_contra past
      exact nonempty (List.drop_eq_nil_of_le (by omega))
    have split : buf = buf.take pos ++ (varintForm value width ++ rest) := by
      rw [← continues, List.take_append_drop]
    have front : (buf.take pos).length = pos := by
      rw [List.length_take]
      omega
    have decoded := decodeVarint_form legal (buf.take pos) rest code
    rwa [← split, front] at decoded

/-- The decoder fails only for want of bytes, with the code it was given. -/
theorem decodeVarint_eq_error {buf : Bytes} {pos : Nat} {code : TransportError} {fault : Failure} :
    decodeVarint buf pos code = .error fault ↔ fault = .decodeError code "truncated varint" ∧
      ∀ first rest, buf.drop pos = first :: rest → rest.length + 1 < announcedWidth first := by
  -- Inside the buffer only the second check can fail, and at its end the first one does.
  by_cases within : pos < buf.length
  · have located : item buf pos = .ok buf[pos] := by simp [item, within]
    have suffix := List.drop_eq_getElem_cons within
    have remaining : (buf.drop (pos + 1)).length = buf.length - (pos + 1) := List.length_drop
    have announced : 1 <<< (buf[pos].toNat >>> 6) = announcedWidth buf[pos] := rfl
    have start : ¬ pos ≥ buf.length := by omega
    simp only [decodeVarint, raiseIf, start, if_false, ok_bind, located, announced]
    constructor
    · intro failed
      split at failed
      · refine ⟨by simpa [eq_comm] using failed, ?_⟩
        intro first rest same
        rw [suffix] at same
        cases same
        omega
      · simp at failed
    · intro starved
      rcases starved with ⟨rfl, short⟩
      have short := short _ _ suffix
      rw [if_pos (by omega)]
      rfl
  -- At the end there is no first byte, so the condition on it holds of nothing.
  · have ended : buf.drop pos = [] := List.drop_eq_nil_of_le (by omega)
    have start : pos ≥ buf.length := by omega
    simp [decodeVarint, raiseIf, start, ended, eq_comm]

/-- Decoding looks only at the bytes from its position on. -/
theorem decodeVarint_drop (buf : Bytes) (pos : Nat) (code : TransportError) :
    decodeVarint buf pos code = (decodeVarint (buf.drop pos) 0 code).map
      fun answer => (answer.1, pos + answer.2.1, answer.2.2) := by
  -- Both outcomes were characterized by the suffix alone.
  cases decoded : decodeVarint (buf.drop pos) 0 code with
  | error fault =>
    rw [decodeVarint_eq_error, List.drop_zero] at decoded
    exact decodeVarint_eq_error.mpr decoded
  | ok answer =>
    obtain ⟨value, next, width⟩ := answer
    obtain ⟨legal, rfl, rest, continues⟩ := decodeVarint_eq_ok.mp decoded
    rw [List.drop_zero] at continues
    exact decodeVarint_eq_ok.mpr ⟨legal, by simp, rest, continues⟩

/-- The length of the shortest form exists exactly for values in range. -/
theorem varintLen_eq_ok {value length : Nat} :
    varintLen value = .ok length ↔ value ≤ maxVarint ∧ length = varintShortest value := by
  -- The thresholds are compared as integers in the code and as naturals here.
  have six : (1 : Int) <<< 6 = 64 ∧ (1 : Nat) <<< 6 = 64 := ⟨rfl, rfl⟩
  have fourteen : (1 : Int) <<< 14 = 16384 ∧ (1 : Nat) <<< 14 = 16384 := ⟨rfl, rfl⟩
  have thirty : (1 : Int) <<< 30 = 1073741824 ∧ (1 : Nat) <<< 30 = 1073741824 := ⟨rfl, rfl⟩
  have largest : maxVarint = 4611686018427387903 := rfl
  simp only [varintLen, varintShortest, largest, six, fourteen, thirty]
  split_ifs <;> simp only [Except.ok.injEq, false_iff, not_and] <;> omega

/-- A value has a form exactly when it is in range. -/
theorem legal_shortest_iff {value : Nat} :
    VarintLegal value (varintShortest value) ↔ value ≤ maxVarint := by
  -- Each threshold is the capacity of a width, and the last is the largest value.
  unfold VarintLegal varintShortest
  norm_num [maxVarint]
  split_ifs <;> norm_num <;> omega

/-- The number of bytes that a value should take is that of its shortest form. -/
theorem varintLen_legal {value width : Nat} (legal : VarintLegal value width) :
    varintLen value = .ok (varintShortest value) :=
  varintLen_eq_ok.mpr ⟨legal_shortest_iff.mp (varintFormat.legal_shortest legal), rfl⟩

/-- Setting the width bits over a high digit adds them to it. -/
theorem prefix_or (digit exponent : Nat) (high : digit < 64) (bound : exponent ≤ 3) :
    UInt8.ofNat digit ||| UInt8.ofNat (64 * exponent) = UInt8.ofNat (64 * exponent + digit) := by
  apply UInt8.toNat_inj.mp
  rw [UInt8.toNat_or, UInt8.toNat_ofNat_of_lt' (show digit < 256 by omega),
    UInt8.toNat_ofNat_of_lt' (show 64 * exponent < 256 by omega),
    UInt8.toNat_ofNat_of_lt' (show 64 * exponent + digit < 256 by omega), Nat.or_comm]
  -- The digit occupies only bits below the two that name the width.
  exact (Nat.two_pow_add_eq_or_of_lt (show digit < 2 ^ 6 from high) exponent).symm

/-- The encoder writes the form of a value in any width that holds it. -/
theorem encodeVarint_width {value width : Nat} (legal : VarintLegal value width) :
    encodeVarint value (some width) = .ok (varintForm value width) := by
  -- The checks of the encoder pass, and its lookups have known answers, one width at a time.
  have need := varintLen_legal legal
  have shorter : varintShortest value ≤ width := varintFormat.shortest_le legal
  have listed : width ∈ [1, 2, 4, 8] := by
    obtain ⟨rfl | rfl | rfl | rfl, -⟩ := legal <;> decide
  have head : entry varintPrefix width = .ok (UInt8.ofNat (64 * width.log2)) := by
    obtain ⟨rfl | rfl | rfl | rfl, -⟩ := legal <;> rfl
  have positive : width = width - 1 + 1 := (Nat.sub_add_cancel (varint_positive legal)).symm
  have fits : value < 256 ^ width := by
    obtain ⟨rfl | rfl | rfl | rfl, bound⟩ := legal <;> norm_num at bound ⊢ <;> omega
  have raw : toBytes value width =
      .ok (UInt8.ofNat (value / 256 ^ (width - 1)) :: bigEndian (width - 1) value) := by
    rw [toBytes, if_pos fits, ← bigEndian_succ, ← positive]
  -- The high digit leaves room for the two bits that the lookup sets over it.
  have joined := prefix_or _ _ (high_digit_lt legal) (width_eq_shift legal).2
  have accepted : ¬ (width ∉ [1, 2, 4, 8] ∨ width < varintShortest value) := by
    intro refused
    rcases refused with missing | narrow
    · exact missing listed
    · omega
  simp only [encodeVarint, need, ok_bind, Option.getD_some, raiseIf, accepted, if_false, head,
    Int.toNat_natCast, raw, item, List.getElem?_cons_zero, joined, pure_ok, varintForm,
    List.drop_succ_cons, List.drop_zero]

/-- Without a width the encoder chooses the shortest form. -/
theorem encodeVarint_shortest {value : Nat} (fits : value ≤ maxVarint) :
    encodeVarint value = .ok (varintForm value (varintShortest value)) := by
  -- Without a forced width the encoder forces the one it measured.
  have need : varintLen value = .ok (varintShortest value) := varintLen_eq_ok.mpr ⟨fits, rfl⟩
  have chosen : encodeVarint value = encodeVarint value (some (varintShortest value)) := by
    simp only [encodeVarint, need, ok_bind, Option.getD_none, Option.getD_some]
  rw [chosen, encodeVarint_width (legal_shortest_iff.mpr fits)]

/-- The encoder answers only for values in range, and then with the shortest form. -/
theorem encodeVarint_eq_ok {value : Nat} {encoded : Bytes} :
    encodeVarint value = .ok encoded ↔
      value ≤ maxVarint ∧ encoded = varintForm value (varintShortest value) := by
  -- An answer of the encoder means that the value could be measured.
  constructor
  · intro written
    have fits : value ≤ maxVarint := by
      simp only [encodeVarint, bind_eq_ok] at written
      obtain ⟨need, measured, -⟩ := written
      exact (varintLen_eq_ok.mp measured).1
    rw [encodeVarint_shortest fits, Except.ok.injEq] at written
    exact ⟨fits, written.symm⟩
  · intro given
    rcases given with ⟨fits, rfl⟩
    exact encodeVarint_shortest fits

end Zmux
