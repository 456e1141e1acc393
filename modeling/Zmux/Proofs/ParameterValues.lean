import Zmux.Codec.Parameters
import Zmux.Codec.VarintLaws

/-! The value of a transport parameter decodes exactly when its bytes spell the value's layout. -/

namespace Zmux

open Wire

/-- The number a parameter is sent under, zero standing for none. -/
def TpId.sent (id : TpId) : Nat :=
  match id.number with
  | .ok number => number
  -- No parameter that decodes is without a number, so the zero is never read.
  | .error _ => 0

/-- The number of each role. -/
def Role.code : Role → Nat
  | initiator => 0
  | responder => 1
  | auto => 2

/-- How the value of a parameter is laid out. -/
def TpValue.layout : TpValue → Layout
  | .none => .done
  | .varint number => .num number .done
  | .role which nonce => .num which.code (.bytes ((nonce.map (bigEndian 8)).getD []) .done)
  | .multipath flags nonce locator =>
    .bytes (UInt8.ofNat flags :: (nonce ++ UInt8.ofNat locator.length :: locator)) .done
  | .lanes maxLanes laneKey => .num maxLanes (.bytes laneKey .done)
  | .bytes literal => .bytes literal .done

/-- The layout of what a parameter has: bytes, or a value. -/
def TpContent.layout : TpContent → Layout
  | .raw literal => .bytes literal .done
  | .value content => content.layout

/-- A parameter is its number, then its value behind the value's byte count. -/
def Param.layout (param : Param) : Layout :=
  .num param.id.sent (.sized param.content.layout .done)

/-- A value is one that a format has. -/
def TpValue.InFormat : TpFormat → TpValue → Prop
  | .varint, .varint _ => True
  | .empty, .none => True
  | .role, .role which nonce =>
    if which = .auto then ∃ number, nonce = some number ∧ number < 256 ^ 8 else nonce = Option.none
  | .multipath, .multipath flags nonce locator =>
    flags < 256 ∧ nonce.length = 16 ∧ locator.length ≤ Limits.maxLocatorBytes
  | .lanes, .lanes maxLanes laneKey => maxLanes ≠ 0 ∧ laneKey.length = Limits.laneKeyBytes
  | _, _ => False

/-- Where an integer decodes, the buffer continues with a form of it. -/
theorem decodeVarint_here {buf : Bytes} {pos value next width : Nat} {code : TransportError} :
    decodeVarint buf pos code = .ok (value, next, width) ↔ VarintLegal value width ∧
      next = pos + width ∧ buf.drop pos = varintForm value width ++ buf.drop next := by
  -- What follows the form is the suffix at the position behind it.
  rw [decodeVarint_eq_ok]
  constructor
  · intro decoded
    obtain ⟨legal, rfl, rest, continues⟩ := decoded
    refine ⟨legal, rfl, ?_⟩
    rw [← List.drop_drop, continues, List.drop_left' (varintForm_length legal)]
  · intro decoded
    obtain ⟨legal, forward, continues⟩ := decoded
    exact ⟨legal, forward, _, continues⟩

/-- An integer that begins a value is followed by the rest of the value. -/
theorem decodeVarint_begin {raw : Bytes} {number next width : Nat} {code : TransportError} :
    decodeVarint raw 0 code = .ok (number, next, width) ↔ VarintLegal number width ∧
      next = width ∧ ∃ tail, raw = varintForm number width ++ tail := by
  -- At the beginning of the value the suffix is the value itself.
  simp only [decodeVarint_eq_ok, List.drop_zero, Nat.zero_add]

/-- An integer that fills its bytes is one of its forms. -/
theorem decodeTpVarint_eq_ok {name : TpName} {raw : Bytes} {value : TpValue} :
    decodeTpVarint name raw = .ok value ↔
      value.InFormat .varint ∧ Starts varintFormat value.layout raw [] := by
  simp only [decodeTpVarint, bind_eq_ok, Prod.exists, decodeVarint_begin, raiseIf_eq_ok,
    Decidable.not_not, pure_ok, Except.ok.injEq]
  constructor
  · intro decoded
    obtain ⟨number, pos, width, ⟨legal, same, tail, continues⟩, -, full, rfl⟩ := decoded
    -- The form is as long as the bytes, so nothing follows it.
    have wide := congrArg List.length continues
    rw [List.length_append, varintForm_length legal] at wide
    have ended : tail = [] := List.eq_nil_of_length_eq_zero (by omega)
    rw [ended] at continues
    exact ⟨trivial, starts_num_iff.mpr ⟨width, [], legal, continues, starts_done_iff.mpr rfl⟩⟩
  · intro spelled
    obtain ⟨formed, starts⟩ := spelled
    cases value with
    -- Nothing follows the form, so the position behind it is the end.
    | varint number =>
      obtain ⟨width, behind, legal, same, ended⟩ := starts_num_iff.mp starts
      rw [starts_done_iff.mp ended, List.append_nil] at same
      have wide : raw.length = width := by rw [same]; exact varintForm_length legal
      exact ⟨number, width, width, ⟨legal, rfl, [], by rw [List.append_nil]; exact same⟩, (),
        wide.symm, rfl⟩
    | _ => exact formed.elim

/-- An empty value is decoded from its layout, and from nothing else. -/
theorem decodeTpEmpty_eq_ok {name : TpName} {raw : Bytes} {value : TpValue} :
    decodeTpEmpty name raw = .ok value ↔
      value.InFormat .empty ∧ Starts varintFormat value.layout raw [] := by
  -- Only the absent value is in the format, and it is laid out as no bytes.
  cases value <;> simp [decodeTpEmpty, TpValue.InFormat, TpValue.layout]

/-- A number followed by literal bytes, and nothing else. -/
theorem starts_num_bytes_iff {number : Nat} {tail raw : Bytes} :
    Starts varintFormat (.num number (.bytes tail .done)) raw [] ↔
      ∃ width, VarintLegal number width ∧ raw = varintForm number width ++ tail := by
  -- The literal bytes take everything that is left behind the number.
  simp [Begins, varintFormat]

/-- Each role is listed under its own number. -/
theorem roleValues_eq_ok {code : Nat} {which : Role} :
    entry roleValues code = .ok which ↔ code = which.code :=
  entry_eq_ok_iff (fun which => by cases which <;> rfl) (by decide)

/-- A role is decoded from its layout, and from nothing else. -/
theorem decodeTpRole_eq_ok {raw : Bytes} {value : TpValue} :
    decodeTpRole raw = .ok value ↔
      value.InFormat .role ∧ Starts varintFormat value.layout raw [] := by
  -- The code of the role is read first, and selects what may follow it.
  simp only [decodeTpRole, bind_eq_ok, Prod.exists, decodeVarint_begin, raiseIf_eq_ok,
    roleValues_eq_ok]
  constructor
  · intro decoded
    obtain ⟨_, pos, width, ⟨legal, rfl, tail, rfl⟩, -, -, which, rfl, decoded⟩ := decoded
    have wide : (varintForm which.code pos).length = pos := varintForm_length legal
    simp only [List.length_append, wide, Nat.add_sub_cancel_left, List.drop_left' wide] at decoded
    -- Only the last role has a nonce, and the others nothing behind their number.
    by_cases last : which = .auto
    · rw [if_pos last] at decoded
      simp only [bind_eq_ok, raiseIf_eq_ok, Decidable.not_not, pure_ok, Except.ok.injEq] at decoded
      obtain ⟨-, eight, rfl⟩ := decoded
      -- Eight bytes are the big-endian form of the number they stand for.
      have spelled : bigEndian 8 (foldBytes 0 tail) = tail := by
        rw [← eight, bigEndian_foldBytes]
      have bound : foldBytes 0 tail < 256 ^ 8 := by
        rw [← eight]
        exact foldBytes_lt tail
      refine ⟨by simpa [TpValue.InFormat, last] using bound, starts_num_bytes_iff.mpr ⟨_, legal, ?_⟩⟩
      simp [spelled]
    · rw [if_neg last] at decoded
      simp only [bind_eq_ok, raiseIf_eq_ok, Decidable.not_not, pure_ok, Except.ok.injEq] at decoded
      obtain ⟨-, ended, rfl⟩ := decoded
      have empty : tail = [] := List.eq_nil_of_length_eq_zero (by omega)
      refine ⟨by simp [TpValue.InFormat, last], starts_num_bytes_iff.mpr ⟨_, legal, ?_⟩⟩
      simp [empty]
  · intro spelled
    obtain ⟨formed, starts⟩ := spelled
    cases value with
    | role which nonce =>
      obtain ⟨width, legal, rfl⟩ := starts_num_bytes_iff.mp starts
      have wide : (varintForm which.code width).length = width := varintForm_length legal
      refine ⟨_, _, width, ⟨legal, rfl, _, rfl⟩, (), by cases which <;> decide, which, rfl, ?_⟩
      cases which with
      -- The nonce is read back from its eight bytes.
      | auto =>
        obtain ⟨number, rfl, bound⟩ := formed
        have read : foldBytes 0 (bigEndian 8 number) = number := by
          rw [foldBytes_bigEndian, Nat.mod_eq_of_lt bound]
        simp [wide, bigEndian_length, read]
      | _ =>
        cases formed
        simp [wide]
    | _ => exact formed.elim

/-- A number of lanes is decoded from its layout, and from nothing else. -/
theorem decodeTpLanes_eq_ok {raw : Bytes} {value : TpValue} :
    decodeTpLanes raw = .ok value ↔
      value.InFormat .lanes ∧ Starts varintFormat value.layout raw [] := by
  -- The key is whatever follows the number, so its length is checked by subtraction.
  simp only [decodeTpLanes, bind_eq_ok, Prod.exists, decodeVarint_begin, raiseIf_eq_ok,
    Decidable.not_not, pure_ok, Except.ok.injEq]
  constructor
  · intro decoded
    obtain ⟨number, pos, width, ⟨legal, rfl, tail, rfl⟩, -, long, -, positive, rfl⟩ := decoded
    have wide : (varintForm number pos).length = pos := varintForm_length legal
    simp only [List.length_append, wide, Nat.add_sub_cancel_left] at long
    rw [List.drop_left' wide]
    exact ⟨⟨positive, long⟩, starts_num_bytes_iff.mpr ⟨_, legal, rfl⟩⟩
  · intro spelled
    obtain ⟨formed, starts⟩ := spelled
    cases value with
    -- The key of the format has the length that the decoder asks for.
    | lanes number key =>
      obtain ⟨positive, long⟩ := formed
      obtain ⟨width, legal, rfl⟩ := starts_num_bytes_iff.mp starts
      have wide : (varintForm number width).length = width := varintForm_length legal
      exact ⟨number, _, width, ⟨legal, rfl, key, rfl⟩, (), by simp [wide, long], (), positive,
        by rw [List.drop_left' wide]⟩
    | _ => exact formed.elim

/-- A multipath value is decoded from its layout, and from nothing else. -/
theorem decodeTpMultipath_eq_ok {raw : Bytes} {value : TpValue} :
    decodeTpMultipath raw = .ok value ↔
      value.InFormat .multipath ∧ Starts varintFormat value.layout raw [] := by
  -- Every part but the locator has a fixed place, and the count gives the locator's length.
  constructor
  · intro decoded
    simp only [decodeTpMultipath, bind_eq_ok, raiseIf_eq_ok, pure_ok, Except.ok.injEq] at decoded
    obtain ⟨-, long, flags, first, ln, count, -, short, -, full, rfl⟩ := decoded
    -- The flags, the nonce, the count and the locator follow each other without a gap.
    have head := drop_of_item first
    have tail := drop_of_item count
    have middle : slice raw 1 17 ++ (raw.drop 1).drop 16 = raw.drop 1 :=
      List.take_append_drop 16 (raw.drop 1)
    have width : (slice raw 1 17).length = 16 := slice_length (by omega)
    have rest : (raw.drop 18).length = ln.toNat := by
      rw [List.length_drop]
      omega
    rw [List.drop_drop, tail] at middle
    rw [List.drop_zero, ← middle] at head
    refine ⟨⟨flags.toNat_lt, width, by rw [rest]; omega⟩, ?_⟩
    simp only [TpValue.layout, starts_bytes_iff, starts_done_iff, rest, UInt8.ofNat_toNat]
    exact ⟨[], by rw [List.append_nil]; exact head, rfl⟩
  · intro spelled
    obtain ⟨formed, starts⟩ := spelled
    cases value with
    | multipath flags nonce locator =>
      obtain ⟨small, long, short⟩ := formed
      simp only [TpValue.layout, starts_bytes_iff, starts_done_iff] at starts
      obtain ⟨_, rfl, rfl⟩ := starts
      rw [List.append_nil]
      -- A locator in the format is short enough for a count of one byte.
      have few : locator.length < 256 := Nat.lt_of_le_of_lt short (by decide)
      have count : (UInt8.ofNat locator.length).toNat = locator.length :=
        UInt8.toNat_ofNat_of_lt' few
      have bits : (UInt8.ofNat flags).toNat = flags := UInt8.toNat_ofNat_of_lt' small
      -- Behind the flags the nonce ends where the count stands.
      have nonceSlice : (nonce ++ UInt8.ofNat locator.length :: locator).take 16 = nonce :=
        List.take_left' long
      have last : (nonce ++ UInt8.ofNat locator.length :: locator)[16]? =
          some (UInt8.ofNat locator.length) := by
        rw [List.getElem?_append_right (by omega), long]
        rfl
      have behind : (nonce ++ UInt8.ofNat locator.length :: locator).drop 17 = locator := by
        rw [List.drop_append, List.drop_eq_nil_of_le (by omega), long]
        rfl
      have total : (UInt8.ofNat flags :: (nonce ++ UInt8.ofNat locator.length :: locator)).length =
          18 + locator.length := by
        simp only [List.length_cons, List.length_append, long]
        omega
      have enough : ¬ 18 + locator.length < 18 := by omega
      have fits : ¬ locator.length > Limits.maxLocatorBytes := by omega
      simp only [decodeTpMultipath, raiseIf, total, if_neg enough, ok_bind, item,
        List.getElem?_cons_zero, List.getElem?_cons_succ, last, count, if_neg fits, ne_eq,
        not_true_eq_false, if_false, slice, List.drop_succ_cons, List.drop_zero, nonceSlice, bits,
        behind, pure_ok]
    | _ => exact formed.elim

/-- A number that has a form is encoded in its shortest one. -/
theorem v_legal {number : Nat} (legal : VarintLegal number (varintShortest number)) :
    v number = .ok (varintForm number (varintShortest number)) :=
  -- The encoder asks for the range, which is where the shortest form is legal.
  encodeVarint_shortest (legal_shortest_iff.mp legal)

/-- A key of the right length is one. -/
theorem laneKey_eq_ok {key : Bytes} (long : key.length = Limits.laneKeyBytes) :
    laneKey key = .ok key := by
  -- The only check is on the length.
  simp [laneKey, long, raiseIf]

/-- A small number is one byte. -/
theorem oneByte_eq_ok {value : Nat} (small : value < 256) :
    oneByte value = .ok [UInt8.ofNat value] := if_pos small

/-- A number that fits is written in so many bytes. -/
theorem toBytes_eq_ok {value width : Nat} (small : value < 256 ^ width) :
    toBytes value width = .ok (bigEndian width value) := if_pos small

/-- The number of a role is encoded in one byte, followed by the nonce of the last role. -/
theorem encodeTpRole_eq_ok {which : Role} {nonce : Option Nat}
    (formed : (TpValue.role which nonce).InFormat .role) :
    encodeTpRole (.role which nonce) = .ok ((TpValue.role which nonce).layout.short varintFormat) := by
  -- The table of the encoder is the function `Role.code`.
  have code : v which.code = .ok (varintForm which.code (varintShortest which.code)) := by
    apply v_legal
    rw [legal_shortest_iff]
    cases which <;> decide
  have found : entry [(Role.initiator, 0), (.responder, 1), (.auto, 2)] which = .ok which.code := by
    cases which <;> rfl
  simp only [encodeTpRole, found, code, ok_bind]
  cases which with
  | auto =>
    obtain ⟨number, rfl, bound⟩ := formed
    simp [toBytes_eq_ok bound, TpValue.layout, Layout.short, varintFormat]
  | _ =>
    cases formed
    simp [TpValue.layout, Layout.short, varintFormat]

/-- A value in a format is encoded by the shortest spelling of its layout. -/
theorem encodeTpValue_eq_ok {id : TpId} {row : TpMeta} {format : TpFormat} {value : TpValue}
    (found : id.row = .ok (some row)) (formatted : row.format = some format)
    (formed : value.InFormat format) (fits : value.layout.Fits varintFormat) :
    encodeTpValue id value = .ok (value.layout.short varintFormat) := by
  -- Each format has the values of one constructor.
  simp only [encodeTpValue, found, ok_bind, formatted]
  cases format with
  | varint =>
    cases value with
    | varint number =>
      rw [TpValue.int, ok_bind, v_legal fits.1]
      simp [TpValue.layout, Layout.short, varintFormat]
    | _ => exact formed.elim
  | empty =>
    cases value with
    | none => rfl
    | _ => exact formed.elim
  | role =>
    cases value with
    | role which nonce => exact encodeTpRole_eq_ok formed
    | _ => exact formed.elim
  | multipath =>
    cases value with
    | multipath flags nonce locator =>
      obtain ⟨small, long, short⟩ := formed
      have few : locator.length < 256 := Nat.lt_of_le_of_lt short (by decide)
      simp [encodeTpMultipath, long, raiseIf, oneByte_eq_ok small, oneByte_eq_ok few,
        TpValue.layout, Layout.short]
    | _ => exact formed.elim
  | lanes =>
    cases value with
    | lanes maxLanes key =>
      simp [encodeTpLanes, v_legal fits.1, laneKey_eq_ok formed.2, TpValue.layout, Layout.short,
        varintFormat]
    | _ => exact formed.elim
  | opaqueBytes => cases value <;> exact formed.elim

end Zmux
