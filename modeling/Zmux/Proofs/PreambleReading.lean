import Zmux.Codec.Preamble
import Zmux.Proofs.SentParameters

/-! A preamble is read from its own bytes, as the values it was sent as. -/

namespace Zmux

open Wire

/-- A preamble value as it is sent: its type, then its value behind the value's byte count. -/
abbrev SentTlv := Tlv varintFormat

/-- The type and the value of a preamble value that is sent. -/
def plainTlv (tlv : SentTlv) : Nat × Bytes := (tlv.number, tlv.value)

/-- Take in one value whose length is that of its bytes. -/
def acceptPair (state : Preamble × List Nat) (tlv : Nat × Bytes) :
    Except Failure (Preamble × List Nat) :=
  acceptTlv state.1 state.2 tlv.1 tlv.2.length tlv.2

variable {data value : Bytes} {pos stop type ln next : Nat}

/-- A value is read at a position exactly where one is sent that ends before the stop. -/
theorem tlvAt_eq_ok (within : stop ≤ data.length) :
    tlvAt data pos stop = .ok (type, ln, value, next) ↔ ∃ tlv : SentTlv, tlv.number = type ∧
      tlv.value = value ∧ value.length = ln ∧ next = pos + tlv.bytes.length ∧ next ≤ stop ∧
      ∃ rest, data.drop pos = tlv.bytes ++ rest := by
  -- The type and the length are integers, and the value is as long as the second one says.
  constructor
  · intro found
    simp only [tlvAt, bind_eq_ok, Prod.exists, decodeVarint_here, raiseIf_eq_ok, pure_ok,
      Except.ok.injEq, Prod.mk.injEq] at found
    obtain ⟨type, start, width, ⟨legal, -, first⟩, _, -, ln, body, narrow, ⟨lawful, -, second⟩, _,
      inside, rfl, rfl, rfl, rfl⟩ := found
    have count : (slice data body (body + ln)).length = ln := by
      rw [slice_length (by omega)]
      omega
    have counted : VarintLegal (slice data body (body + ln)).length narrow := by
      rw [count]
      exact lawful
    let tlv : SentTlv := ⟨type, slice data body (body + ln), width, narrow, legal, counted⟩
    -- What stands behind the type is the form of the length, and then the value.
    have here : data.drop pos = tlv.bytes ++ data.drop (body + ln) := by
      have behind : slice data body (body + ln) ++ data.drop (body + ln) = data.drop body :=
        slice_append_drop (Nat.le_add_right _ _)
      simp only [tlv, Tlv.bytes, varintFormat, count, List.append_assoc, behind]
      rw [first, second]
    have long := congrArg List.length here
    have positive : 0 < width := varint_positive legal
    rw [List.length_append, Tlv.bytes_length, List.length_drop, List.length_drop] at long
    refine ⟨tlv, rfl, rfl, count, ?_, by omega, _, here⟩
    rw [Tlv.bytes_length]
    simp only [tlv] at long ⊢
    omega
  · intro sent
    rcases sent with ⟨tlv, rfl, rfl, rfl, rfl, inside, rest, here⟩
    -- The forms of the type and of the length lie at the positions where they are read.
    have wide : (varintForm tlv.number tlv.numberWidth).length = tlv.numberWidth :=
      varintForm_length tlv.numberLegal
    have narrow : (varintForm tlv.value.length tlv.countWidth).length = tlv.countWidth :=
      varintForm_length tlv.countLegal
    have positive : 0 < tlv.countWidth := varint_positive tlv.countLegal
    rw [Tlv.bytes_length] at inside ⊢
    simp only [Tlv.bytes, varintFormat, List.append_assoc] at here
    have there : data.drop (pos + tlv.numberWidth) =
        varintForm tlv.value.length tlv.countWidth ++ (tlv.value ++ rest) := by
      rw [← List.drop_drop, here, List.drop_left' wide]
    have behind : data.drop (pos + tlv.numberWidth + tlv.countWidth) = tlv.value ++ rest := by
      rw [← List.drop_drop, there, List.drop_left' narrow]
    have typed : decodeVarint data pos PV = .ok (tlv.number, pos + tlv.numberWidth,
        tlv.numberWidth) := decodeVarint_eq_ok.mpr ⟨tlv.numberLegal, rfl, _, here⟩
    have sized : decodeVarint data (pos + tlv.numberWidth) PV = .ok (tlv.value.length,
        pos + tlv.numberWidth + tlv.countWidth, tlv.countWidth) :=
      decodeVarint_eq_ok.mpr ⟨tlv.countLegal, rfl, _, there⟩
    have cut := slice_front behind
    have start : ¬ pos + tlv.numberWidth ≥ stop := by omega
    have ended : ¬ (pos + tlv.numberWidth + tlv.countWidth > stop ∨
        pos + tlv.numberWidth + tlv.countWidth + tlv.value.length > stop) := by omega
    simp only [← Nat.add_assoc, tlvAt, typed, ok_bind, raiseIf, if_neg start, sized, if_neg ended,
      pure_ok, cut]

/-- Before the stop, the loop takes in the value at its position and goes on behind it. -/
theorem decodeTlvsFrom_step (more : pos < stop) {parsed : Preamble} {seen : List Nat} :
    decodeTlvsFrom data pos stop parsed seen = (do
      let (type, ln, value, next) ← tlvAt data pos stop
      let (parsed, seen) ← acceptTlv parsed seen type ln value
      decodeTlvsFrom data next stop parsed seen) := by
  -- The loop looks at the value first, only to know that it shortens what is left.
  rw [decodeTlvsFrom, if_pos more]
  split
  · rename_i failed
    simp only [failed, error_bind]
  · rename_i found
    simp only [found, ok_bind]

/-- The loop reads a window as the values sent in it, one after the other. -/
theorem decodeTlvsFrom_eq_ok (ordered : pos ≤ stop) (within : stop ≤ data.length)
    {parsed answer : Preamble} {seen : List Nat} :
    decodeTlvsFrom data pos stop parsed seen = .ok answer ↔ ∃ tlvs : List SentTlv,
      slice data pos stop = Tlv.block tlvs ∧
      ∃ known, (tlvs.map plainTlv).foldlM acceptPair (parsed, seen) = .ok (answer, known) := by
  -- The induction is on the bytes that are left of the window, which every value shortens.
  induction width : stop - pos using Nat.strongRecOn generalizing pos parsed seen with
  | _ width ih =>
    subst width
    by_cases more : pos < stop
    · rw [decodeTlvsFrom_step more]
      simp only [bind_eq_ok, Prod.exists]
      constructor
      · intro read
        rcases read with ⟨type, ln, value, next, found, state, known, taken, others⟩
        have forward := tlvAt_forward found
        obtain ⟨tlv, rfl, rfl, rfl, rfl, -, rest, here⟩ := (tlvAt_eq_ok within).mp found
        obtain ⟨tlvs, block, last, folded⟩ := (ih _ (by omega) forward.2 rfl).mp others
        refine ⟨tlv :: tlvs, ?_, last, ?_⟩
        · -- The window is the value that was read and the window behind it.
          rw [← slice_append_slice (Nat.le_of_lt forward.1) forward.2, slice_front here, block,
            Tlv.block]
        · have step : acceptPair (parsed, seen) (plainTlv tlv) = .ok (state, known) := taken
          rw [List.map_cons, List.foldlM_cons, step, ok_bind]
          exact folded
      · intro sent
        rcases sent with ⟨tlvs, block, last, folded⟩
        have long := @slice_length data pos stop within
        rw [block] at long
        cases tlvs with
        | nil =>
          simp only [Tlv.block, List.length_nil] at long
          omega
        | cons tlv tlvs =>
          rw [Tlv.block, List.length_append] at long
          have here : data.drop pos = tlv.bytes ++ (Tlv.block tlvs ++ data.drop stop) := by
            rw [← slice_append_drop ordered, block, Tlv.block, List.append_assoc]
          have found := (tlvAt_eq_ok within).mpr
            ⟨tlv, rfl, rfl, rfl, rfl, show pos + tlv.bytes.length ≤ stop by omega, _, here⟩
          have forward := tlvAt_forward found
          have others : slice data (pos + tlv.bytes.length) stop = Tlv.block tlvs := by
            rw [← slice_append_slice (Nat.le_of_lt forward.1) forward.2, slice_front here] at block
            exact List.append_cancel_left block
          -- The first value is taken in by the loop as by the fold.
          rw [List.map_cons, List.foldlM_cons] at folded
          obtain ⟨⟨state, known⟩, taken, behind⟩ := bind_eq_ok.mp folded
          exact ⟨_, _, _, _, found, state, known, taken,
            (ih _ (by omega) forward.2 rfl).mpr ⟨tlvs, others, last, behind⟩⟩
    · rw [decodeTlvsFrom, if_neg more]
      have none : slice data pos stop = [] := by
        rw [slice, Nat.sub_eq_zero_of_le (Nat.not_lt.mp more), List.take_zero]
      rw [none]
      constructor
      · intro read
        cases read
        exact ⟨[], rfl, seen, rfl⟩
      · intro sent
        rcases sent with ⟨tlvs, empty, known, folded⟩
        have same : [] = tlvs := Tlv.block_injective varint_positive empty
        rw [← same] at folded
        cases folded
        rfl

/-- The length is the integer at the beginning, which no error stands in for. -/
theorem preambleLength_eq_ok {answer : Nat × Nat × Nat} :
    preambleLength data = .ok answer ↔ decodeVarint data 0 PV = .ok answer := by
  -- Only the reason of an error is replaced.
  unfold preambleLength
  split
  · rename_i failed
    rw [failed]
    constructor <;> intro none <;> cases none
  · rfl

/-- A preamble is read where one is sent that is within the limit, and its values are accepted. -/
theorem decodePreamble_eq_ok {limit : Int} {parsed : Preamble} {total : Nat} :
    decodePreamble data limit = .ok (parsed, total) ↔ ∃ width, ∃ tlvs : List SentTlv, ∃ rest,
      VarintLegal (Tlv.block tlvs).length width ∧
      data = varintForm (Tlv.block tlvs).length width ++ (Tlv.block tlvs ++ rest) ∧
      total = width + (Tlv.block tlvs).length ∧ (total : Int) ≤ limit ∧
      ∃ known, (tlvs.map plainTlv).foldlM acceptPair (.fresh, []) = .ok (parsed, known) := by
  -- The length comes first, and the loop reads as many bytes behind it.
  constructor
  · intro read
    simp only [decodePreamble, bind_eq_ok, raiseIf_eq_ok, pure_ok, Except.ok.injEq,
      Prod.mk.injEq] at read
    rcases read with ⟨_, -, ⟨size, next, width⟩, sized, _, small, _, whole, _, others, rfl, rfl⟩
    obtain ⟨legal, rfl, tail, rfl⟩ := decodeVarint_begin.mp (preambleLength_eq_ok.mp sized)
    rw [Int.not_lt] at small
    have wide := varintForm_length legal
    have total : (varintForm size next ++ tail).length = next + tail.length := by
      rw [List.length_append, wide]
    obtain ⟨tlvs, block, known, folded⟩ :=
      (decodeTlvsFrom_eq_ok (Nat.le_add_right _ _) (Nat.not_lt.mp whole)).mp others
    have window : slice (varintForm size next ++ tail) next (next + size) = tail.take size := by
      rw [slice, List.drop_left' wide, Nat.add_sub_cancel_left]
    have room : next + size ≤ next + tail.length := by
      rw [← total]
      exact Nat.not_lt.mp whole
    have long : (Tlv.block tlvs).length = size := by
      rw [← block, window, List.length_take]
      omega
    refine ⟨next, tlvs, tail.drop size, ?_, ?_, ?_, small, known, folded⟩
    · rw [long]
      exact legal
    · rw [long, ← block, window, List.take_append_drop]
    · rw [long]
  · intro sent
    rcases sent with ⟨width, tlvs, rest, legal, rfl, rfl, small, known, folded⟩
    have wide := varintForm_length legal
    have some : varintForm (Tlv.block tlvs).length width ++ (Tlv.block tlvs ++ rest) ≠ [] := by
      simp [varintForm]
    have decoded : preambleLength (varintForm (Tlv.block tlvs).length width ++
        (Tlv.block tlvs ++ rest)) = .ok ((Tlv.block tlvs).length, width, width) :=
      preambleLength_eq_ok.mpr (decodeVarint_begin.mpr ⟨legal, rfl, _, rfl⟩)
    have within : width + (Tlv.block tlvs).length ≤
        (varintForm (Tlv.block tlvs).length width ++ (Tlv.block tlvs ++ rest)).length := by
      rw [List.length_append, List.length_append, wide]
      omega
    have window : slice (varintForm (Tlv.block tlvs).length width ++ (Tlv.block tlvs ++ rest)) width
        (width + (Tlv.block tlvs).length) = Tlv.block tlvs := slice_front (List.drop_left' wide)
    have others := (decodeTlvsFrom_eq_ok (Nat.le_add_right _ _) within).mpr
      ⟨tlvs, window, known, folded⟩
    simp only [decodePreamble, raiseIf, if_neg some, ok_bind, decoded, if_neg (Int.not_lt.mpr small),
      if_neg (Nat.not_lt.mpr within), others, pure_ok]

/-- A failure is the protocol violation that every broken preamble is answered with. -/
def Failure.Violation (fault : Failure) : Prop := ∃ reason, fault = .decodeError PV reason

/-- A value whose length is that of its bytes is refused as a protocol violation only. -/
theorem acceptTlv_faults (parsed : Preamble) (seen : List Nat) (type : Nat) (value : Bytes) :
    Faults (acceptTlv parsed seen type value.length value) Failure.Violation := by
  -- The cases follow the code: a known type, then its own check, or any other type.
  unfold acceptTlv
  split
  · refine Faults.bind (faults_raiseIf fun _ => ⟨_, rfl⟩) fun _ _ => ?_
    split
    · refine Faults.bind (faults_raiseIf fun _ => ⟨_, rfl⟩) fun _ single => ?_
      -- A single byte is there to be looked into.
      obtain ⟨byte, rfl⟩ := List.length_eq_one_iff.mp (by simpa using single)
      refine Faults.bind (faults_ok byte) fun _ _ => ?_
      refine Faults.bind (faults_raiseIf fun _ => ⟨_, rfl⟩) fun _ _ => ?_
      exact faults_ok _
    · exact faults_ok _
    · exact Faults.bind (faults_raiseIf fun _ => ⟨_, rfl⟩) fun _ _ => faults_ok _
    · exact faults_ok _
  · split
    · exact faults_ok _
    · exact faults_ok _

/-- An integer that is cut off is a protocol violation where one is asked for. -/
theorem decodeVarint_violation (data : Bytes) (pos : Nat) :
    Faults (decodeVarint data pos PV) Failure.Violation := by
  -- The error has the code that is asked for.
  intro fault failed
  exact ⟨_, (decodeVarint_eq_error.mp failed).1⟩

/-- A value that cannot be read where it should stand is a protocol violation. -/
theorem tlvAt_faults (data : Bytes) (pos stop : Nat) :
    Faults (tlvAt data pos stop) Failure.Violation := by
  -- Its two integers may be cut off, and each of them is compared with the stop.
  refine Faults.bind (decodeVarint_violation data pos) fun typed _ => ?_
  refine Faults.bind (faults_raiseIf fun _ => ⟨_, rfl⟩) fun _ _ => ?_
  refine Faults.bind (decodeVarint_violation data typed.2.1) fun sized _ => ?_
  exact Faults.bind (faults_raiseIf fun _ => ⟨_, rfl⟩) fun _ _ => faults_ok _

/-- The loop over the values fails with protocol violations only. -/
theorem decodeTlvsFrom_faults (within : stop ≤ data.length) (parsed : Preamble) (seen : List Nat) :
    Faults (decodeTlvsFrom data pos stop parsed seen) Failure.Violation := by
  -- The induction is on the bytes that are left, which every value shortens.
  induction width : stop - pos using Nat.strongRecOn generalizing pos parsed seen with
  | _ width ih =>
    subst width
    by_cases more : pos < stop
    · rw [decodeTlvsFrom_step more]
      refine Faults.bind (tlvAt_faults data pos stop) fun found read => ?_
      rcases found with ⟨type, ln, value, next⟩
      have forward := tlvAt_forward read
      -- The length that was read is that of the value, so the value can be looked into.
      obtain ⟨tlv, rfl, rfl, rfl, -⟩ := (tlvAt_eq_ok within).mp read
      refine Faults.bind (acceptTlv_faults _ _ _ _) fun state _ => ?_
      exact ih _ (by omega) _ _ rfl
    · rw [decodeTlvsFrom, if_neg more]
      exact faults_ok _

/-- A preamble that is not read is a protocol violation. -/
theorem decodePreamble_faults (data : Bytes) (limit : Int) :
    Faults (decodePreamble data limit) Failure.Violation := by
  -- Every check raises the same error, and so does the integer that is decoded first.
  refine Faults.bind (faults_raiseIf fun _ => ⟨_, rfl⟩) fun _ _ => ?_
  refine Faults.bind ?_ fun sized _ => ?_
  · unfold preambleLength
    split
    · exact faults_error ⟨_, rfl⟩
    · exact decodeVarint_violation data 0
  refine Faults.bind (faults_raiseIf fun _ => ⟨_, rfl⟩) fun _ _ => ?_
  refine Faults.bind (faults_raiseIf fun _ => ⟨_, rfl⟩) fun _ whole => ?_
  have within := Nat.not_lt.mp (raiseIf_eq_ok.mp whole)
  exact Faults.bind (decodeTlvsFrom_faults within _ _) fun _ _ => faults_ok _

/--
A preamble is read from its own bytes.

Whatever the data and the limit are, reading ends with an answer or with a protocol violation.
An answer is about the bytes in front of the position it gives, which are a length and the values it counts, and nothing that follows them changes it.
-/
theorem decodePreamble_contained (data : Bytes) (limit : Int) :
    (∀ fault, decodePreamble data limit = .error fault →
      ∃ reason, fault = .decodeError .protocolViolation reason) ∧
    (∀ parsed total, decodePreamble data limit = .ok (parsed, total) →
      1 ≤ total ∧ (total : Int) ≤ limit ∧ total ≤ data.length ∧
      (∃ width, ∃ tlvs : List SentTlv, VarintLegal (Tlv.block tlvs).length width ∧
        data.take total = varintForm (Tlv.block tlvs).length width ++ Tlv.block tlvs) ∧
      ∀ other, decodePreamble (data.take total ++ other) limit = .ok (parsed, total)) := by
  refine ⟨decodePreamble_faults data limit, ?_⟩
  intro parsed total read
  obtain ⟨width, tlvs, rest, legal, rfl, rfl, small, folded⟩ := decodePreamble_eq_ok.mp read
  have wide := varintForm_length legal
  have positive : 0 < width := varint_positive legal
  -- The bytes that are counted are the length and the values behind it.
  have own : (varintForm (Tlv.block tlvs).length width ++ (Tlv.block tlvs ++ rest)).take
      (width + (Tlv.block tlvs).length) =
        varintForm (Tlv.block tlvs).length width ++ Tlv.block tlvs := by
    rw [← List.append_assoc]
    apply List.take_left'
    rw [List.length_append, wide]
  refine ⟨by omega, small, ?_, ⟨width, tlvs, legal, own⟩, ?_⟩
  · rw [List.length_append, List.length_append, wide]
    omega
  · intro other
    rw [own]
    exact decodePreamble_eq_ok.mpr
      ⟨width, tlvs, other, legal, by rw [List.append_assoc], rfl, small, folded⟩

end Zmux
