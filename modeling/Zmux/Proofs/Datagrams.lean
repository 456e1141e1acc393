import Zmux.Proofs.FieldFaults
import Zmux.Proofs.FrameDecoding

/-! The errors of datagrams, and when those of decoding come before those of meaning. -/

namespace Zmux

open Wire

/-- Datagrams are in use where no gates are given, or their parameter is among them. -/
def Advertised (enabled : Gates) : Prop := ∀ names ∈ enabled, TpName.maxDatagramFrameSize ∈ names

instance (enabled : Gates) : Decidable (Advertised enabled) :=
  inferInstanceAs (Decidable (∀ names ∈ enabled, TpName.maxDatagramFrameSize ∈ names))

/-- A frame that takes more bytes than a limit allows, if there is a limit. -/
def Above (limit : Option Nat) (span : Nat) : Prop := ∃ most ∈ limit, span > most

instance (limit : Option Nat) (span : Nat) : Decidable (Above limit span) :=
  inferInstanceAs (Decidable (∃ most ∈ limit, span > most))

/-- The two types of datagrams, without and with a length. -/
def datagramTypes : List UInt8 := [0x30, 0x31]

/--
Errors of decoding come before errors of meaning at the first frame of some bytes.

A frame that does not decode with every gate in effect and no limit is a frame encoding error.
A protocol violation is a frame that does, and which is not advertised or above its limit.
-/
def DecodingFirst (enabled : Gates) (limit : Option Nat) (window : Bytes) : Prop :=
  (∀ fault, decodeFrame window 0 window.length none none = .error fault →
    ∃ reason, decodeFrame window 0 window.length enabled limit = .error (.decodeError FE reason)) ∧
  (∀ reason, decodeFrame window 0 window.length enabled limit = .error (.decodeError PV reason) →
    ∃ f span, decodeFrame window 0 window.length none none = .ok (f, span) ∧
      (¬ Advertised enabled ∨ Above limit span))

variable {enabled : Gates} {limit : Option Nat} {byte : UInt8} {rest : Bytes}

/-- The row of the registry for both types of datagrams. -/
def datagramRow : FrameMeta := ⟨.datagram, 0x30, 0x31, .quicExt, .one .maxDatagramFrameSize⟩

/-- Datagrams pass their gate when they are advertised. -/
theorem checkType_datagram {code : Nat} (found : frameByType code = some datagramRow) :
    checkType code enabled = (raiseIf (¬ Advertised enabled)
      (.decodeError PV "DATAGRAM without max_datagram_frame_size")).map fun _ => datagramRow := by
  -- The gate of the row is one name, so the two nested conditions are one.
  have condition : (datagramRow.gate.names ≠ [] ∧ ∃ names ∈ enabled,
      ¬ ∃ g ∈ datagramRow.gate.names, g ∈ names) ↔ ¬ Advertised enabled := by
    simp [datagramRow, Gate.names, Advertised]
  have permitted : ¬ datagramRow.kind = .prohibited := by decide
  have named : datagramRow.name = .datagram := rfl
  simp only [checkType, found, checkGate, raiseIf, condition, if_neg permitted, ok_bind, if_pos named]
  -- Only the check of the gate is left, and the row is the answer behind it.
  by_cases advertised : Advertised enabled
  · rw [if_neg (not_not.mpr advertised)]
    rfl
  · rw [if_pos advertised]
    rfl

/-- The gate of datagrams is checked before their fields, and their span after them. -/
theorem decodeFrame_datagram (typed : byte ∈ datagramTypes) (enabled : Gates)
    (limit : Option Nat) :
    decodeFrame (byte :: rest) 0 (byte :: rest).length enabled limit = (do
      raiseIf (¬ Advertised enabled) (.decodeError PV "DATAGRAM without max_datagram_frame_size")
      let (f, left) ← (readDatagram byte.toNat).on rest
      raiseIf (Above limit (1 + rest.length - left.length))
        (.decodeError PV "DATAGRAM larger than max_datagram_frame_size")
      return (f, 1 + rest.length - left.length)) := by
  -- Both types have one byte, and one row of the registry.
  have table : ∀ byte ∈ datagramTypes, byte.toNat ≠ 0 ∧ varintShortest byte.toNat = 1 ∧
      varintForm byte.toNat 1 = [byte] ∧ frameByType byte.toNat = some datagramRow := by
    decide +kernel
  obtain ⟨nonzero, short, form, found⟩ := table byte typed
  -- A type of one byte is below every bound.
  have legal : VarintLegal byte.toNat (varintShortest byte.toNat) := by
    rw [legal_shortest_iff]
    exact Nat.le_trans (Nat.le_of_lt byte.toNat_lt) (by decide)
  have begins : byte :: rest = varintForm byte.toNat (varintShortest byte.toNat) ++ rest := by
    rw [short, form]
    rfl
  rw [begins, decodeFrame_typed legal nonzero, short, checkType_datagram found]
  -- The fields are read only once the gate has been passed.
  cases raiseIf (¬ Advertised enabled)
    (Failure.decodeError PV "DATAGRAM without max_datagram_frame_size") with
  | error fault => rfl
  | ok checked =>
    have fields : decodeFields datagramRow.name byte.toNat = readDatagram byte.toNat := rfl
    simp only [map_ok, ok_bind, fields]
    cases (readDatagram byte.toNat).on rest with
    | error fault => rfl
    | ok answer =>
      -- The check of joins does not concern datagrams.
      have span : checkSpan datagramRow (1 + rest.length - answer.2.length) limit =
          raiseIf (Above limit (1 + rest.length - answer.2.length))
            (.decodeError PV "DATAGRAM larger than max_datagram_frame_size") := by
        simp [checkSpan, datagramRow, raiseIf, Above]
      simp only [ok_bind, span]

/-- The fields of a datagram are there when it has no length, or a length that ends in the record. -/
theorem readDatagram_whole (typed : byte ∈ datagramTypes) :
    (∃ answer, (readDatagram byte.toNat).on rest = .ok answer) ↔ byte = 0x30 ∨
      ∃ length next width, decodeVarint rest 0 = .ok (length, next, width) ∧
        next + length ≤ rest.length := by
  -- The two types are the two ways of reading the data.
  have fields : (readDatagram byte.toNat).on rest =
      (readData (decide (byte.toNat = 0x31))).on rest >>= fun answer =>
        .ok (.datagram (some answer.1) (some (decide (byte.toNat = 0x31))), answer.2) := by
    simp only [readDatagram, Scan.on_bind, Scan.on_pure]
  simp only [datagramTypes, List.mem_cons, List.not_mem_nil, or_false] at typed
  cases typed with
  | inl unsized =>
    subst unsized
    have whole : readData (decide ((0x30 : UInt8).toNat = 0x31)) = Zmux.rest := rfl
    rw [fields, whole, rest_on, ok_bind]
    simp
  | inr sized =>
    subst sized
    -- With a length, the data is what the length cuts off.
    have counted : readData (decide ((0x31 : UInt8).toNat = 0x31)) = (readV >>= take) := rfl
    have other : ¬ (0x31 : UInt8) = 0x30 := by decide
    simp only [fields, counted, bind_eq_ok, Except.ok.injEq, Prod.exists, counted_on,
      decodeVarint_begin, other, false_or]
    constructor
    · intro read
      obtain ⟨_, _, data, left, ⟨width, legal, rfl⟩, -⟩ := read
      refine ⟨data.length, width, width, ⟨legal, rfl, _, rfl⟩, ?_⟩
      rw [List.length_append, varintFormat.form_length legal, List.length_append]
      omega
    · intro found
      obtain ⟨length, width, _, ⟨legal, rfl, tail, rfl⟩, fits⟩ := found
      rw [List.length_append, varintForm_length legal] at fits
      -- The data is the front of what follows the length.
      have long : (tail.take length).length = length := List.length_take_of_le (by omega)
      refine ⟨_, _, tail.take length, tail.drop length, ⟨width, ?_, ?_⟩, rfl⟩
      · rw [long]
        exact legal
      · rw [long, List.take_append_drop]
        rfl

/--
Errors of decoding come first for a datagram exactly when its gate cannot come before them.

That is when datagrams are advertised, or the frame has no length, or its length is there and ends in the record.
-/
theorem datagram_decodingFirst (typed : byte ∈ datagramTypes) (enabled : Gates)
    (limit : Option Nat) (rest : Bytes) : DecodingFirst enabled limit (byte :: rest) ↔
      Advertised enabled ∨ byte = 0x30 ∨ ∃ length next width,
        decodeVarint rest 0 = .ok (length, next, width) ∧ next + length ≤ rest.length := by
  -- Both runs are written as gate, fields and limit, and the fields are the same in both.
  have every : Advertised none := by
    intro names member
    cases member
  have unlimited : ∀ span, ¬ Above none span := by
    intro span above
    obtain ⟨most, member, -⟩ := above
    cases member
  rw [← readDatagram_whole typed, DecodingFirst, decodeFrame_datagram typed,
    decodeFrame_datagram typed]
  cases read : (readDatagram byte.toNat).on rest with
  | error fault =>
    -- The frame does not decode, so only the gate can get in the way of its error.
    obtain ⟨reason, -, rfl⟩ := readDatagram_faults byte.toNat rest fault read
    by_cases advertised : Advertised enabled
    · simp [raiseIf, advertised, every]
    · simp [raiseIf, advertised, every]
  | ok answer =>
    -- The frame decodes, so every violation is one of meaning.
    obtain ⟨f, left⟩ := answer
    by_cases advertised : Advertised enabled
    -- The limit is only asked about a datagram that has passed the gate.
    · by_cases above : Above limit (1 + rest.length - left.length)
      · simp [raiseIf, advertised, every, unlimited, above]
      · simp [raiseIf, advertised, every, unlimited, above]
    · simp [raiseIf, advertised, every, unlimited]

/-- A datagram that is not advertised hides that its length runs past the end of the record. -/
theorem datagram_decodingFirst_hidden : ¬ DecodingFirst (some []) none [0x31, 0x05] := by
  -- The length says five bytes, of which none is there, and the gate is asked first.
  intro first
  obtain ⟨reason, failed⟩ := first.1 (.decodeError FE "truncated frame") (by decide +kernel)
  have violation : decodeFrame [0x31, 0x05] 0 2 (some []) none =
      .error (.decodeError PV "DATAGRAM without max_datagram_frame_size") := by decide +kernel
  exact absurd (violation.symm.trans failed) (by simp)

/-- A datagram that is not advertised shows that it is whole. -/
theorem datagram_decodingFirst_whole : DecodingFirst (some []) none [0x31, 0x01, 0xAA] ↔
    Advertised (some []) ∨ (0x31 : UInt8) = 0x30 ∨ ∃ length next width,
      decodeVarint [0x01, 0xAA] 0 = .ok (length, next, width) ∧
      next + length ≤ [(0x01 : UInt8), 0xAA].length :=
  datagram_decodingFirst (by decide) _ _ _

end Zmux
