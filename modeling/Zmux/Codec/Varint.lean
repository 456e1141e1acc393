import Zmux.Wire.BigEndian

/-! Variable-length integers, and the ways a call of the codec can fail. -/

namespace Zmux

open Wire

/-- The transport errors the registry names. -/
inductive TransportError where
  | noError
  | internalError
  | connectionRefused
  | flowControlError
  | streamLimitError
  | streamStateError
  | finalSizeError
  | frameEncodingError
  | transportParameterError
  | protocolViolation
  | noViablePath
  | zmuxExcessiveLoad
  | zmuxRoleConflict
  | zmuxResumeTimeout
  | zmuxResumeFailed
  | zmuxPipeFailed
  | zmuxPipeResourceLimit
  | zmuxPipeAuthFailed
  | zmuxIdleTimeout
  deriving DecidableEq, Repr

/-- An exception raised by the codec: its own decode error, or one of the language's. -/
inductive Failure where
  /-- Bytes that cannot be decoded, with the transport error a receiver uses. -/
  | decodeError (code : TransportError) (reason : String)
  | valueError (message : String)
  | overflowError
  | typeError
  | keyError
  | indexError
  deriving DecidableEq, Repr

/-- The error of a frame that cannot be decoded. -/
abbrev FE : TransportError := .frameEncodingError
/-- The error of what the protocol does not allow. -/
abbrev PV : TransportError := .protocolViolation
/-- The error of a parameter. -/
abbrev TPE : TransportError := .transportParameterError

/-- One element of a buffer, where a position past its end is an exception. -/
def item (buf : Bytes) (pos : Nat) : Except Failure UInt8 :=
  -- Positions are never negative here, so only the far end raises.
  match buf[pos]? with
  | some byte => .ok byte
  | none => .error .indexError

/-- The suffix at a position begins with the element there. -/
theorem drop_of_item {buf : Bytes} {pos : Nat} {byte : UInt8} (found : item buf pos = .ok byte) :
    buf.drop pos = byte :: buf.drop (pos + 1) := by
  -- An element found lies inside the buffer, where the suffix is not empty.
  unfold item at found
  split at found
  · rename_i value located
    cases found
    obtain ⟨inside, same⟩ := List.getElem?_eq_some_iff.mp located
    rw [List.drop_eq_getElem_cons inside, same]
  · cases found

/-- One value of a dictionary, where an absent key is an exception. -/
def entry {κ ν : Type} [BEq κ] (dict : List (κ × ν)) (key : κ) : Except Failure ν :=
  match dict.lookup key with
  | some value => .ok value
  | none => .error .keyError

/-- A value looked up is listed under its key. -/
theorem entry_mem {κ ν : Type} [BEq κ] [LawfulBEq κ] {dict : List (κ × ν)} {key : κ} {value : ν}
    (found : entry dict key = .ok value) : (key, value) ∈ dict := by
  -- The lookup stops at a pair with the same key.
  unfold entry at found
  split at found
  · rename_i listed same
    cases found
    obtain ⟨front, back, rfl, -⟩ := List.lookup_eq_some_iff.mp same
    simp
  · cases found

/-- In a dictionary that lists each value under its own code, a code finds its value only. -/
theorem entry_eq_ok_iff {κ ν : Type} [BEq κ] [LawfulBEq κ] {dict : List (κ × ν)} {code : ν → κ}
    (listed : ∀ value, entry dict (code value) = .ok value)
    (only : ∀ pair ∈ dict, pair.1 = code pair.2) {key : κ} {value : ν} :
    entry dict key = .ok value ↔ key = code value := by
  -- A value found is listed under the key, and every pair has its value's own code.
  constructor
  · intro found
    exact only _ (entry_mem found)
  · intro same
    rw [same]
    exact listed value

/-- A byte string of one byte. -/
def oneByte (value : Nat) : Except Failure Bytes :=
  if value < 256 then .ok [UInt8.ofNat value]
  else .error (.valueError "bytes must be in range(0, 256)")

/-- The big-endian bytes of a number in a given width. -/
def toBytes (value width : Nat) : Except Failure Bytes :=
  if value < 256 ^ width then .ok (bigEndian width value) else .error .overflowError

/-- The largest number a variable-length integer holds. -/
def maxVarint : Nat := (1 <<< 62) - 1

/-- The number of bytes of the shortest encoding. -/
def varintLen (value : Int) : Except Failure Nat :=
  if value < 0 ∨ value > maxVarint then .error (.valueError s!"varint out of range: {value}")
  else if value < 1 <<< 6 then .ok 1
  else if value < 1 <<< 14 then .ok 2
  else if value < 1 <<< 30 then .ok 4
  else .ok 8

/-- The two high bits that announce each width. -/
def varintPrefix : List (Nat × UInt8) := [(1, 0x00), (2, 0x40), (4, 0x80), (8, 0xC0)]

/-- Encode a value, in the shortest width unless a width is forced. -/
def encodeVarint (value : Int) (length : Option Nat := none) : Except Failure Bytes := do
  let need ← varintLen value
  let length := length.getD need
  -- A forced width below the shortest one is refused, and a wider one is kept.
  raiseIf (length ∉ [1, 2, 4, 8] ∨ length < need)
    (.valueError s!"cannot encode {value} in {length} bytes")
  let head ← entry varintPrefix length
  let raw ← toBytes value.toNat length
  let first ← item raw 0
  return (first ||| head) :: raw.drop 1

/-- The value at a position of a buffer, the position behind it, and the width it was read in. -/
def decodeVarint (buf : Bytes) (pos : Nat) (code : TransportError := FE) :
    Except Failure (Nat × Nat × Nat) := do
  -- Both checks compare with the whole buffer, so the end of a record is the caller's concern.
  raiseIf (pos ≥ buf.length) (.decodeError code "truncated varint")
  let first ← item buf pos
  let width := 1 <<< (first.toNat >>> 6)
  raiseIf (pos + width > buf.length) (.decodeError code "truncated varint")
  let value := (slice buf (pos + 1) (pos + width)).foldl
    (fun value byte => (value <<< 8) ||| byte.toNat) (first.toNat &&& 0x3F)
  return (value, pos + width, width)

/-- A decoded value occupies at least one byte, and only bytes of the buffer. -/
theorem decodeVarint_forward {buf : Bytes} {pos value next width : Nat} {code : TransportError}
    (decoded : decodeVarint buf pos code = .ok (value, next, width)) :
    pos < next ∧ next ≤ buf.length := by
  simp only [decodeVarint, bind_eq_ok, raiseIf_eq_ok, pure_ok, Except.ok.injEq,
    Prod.mk.injEq] at decoded
  obtain ⟨-, -, first, -, -, whole, -, rfl, -⟩ := decoded
  -- The announced width is a power of two, hence positive.
  have positive : 0 < 1 <<< (first.toNat >>> 6) := by
    rw [Nat.one_shiftLeft]
    exact Nat.two_pow_pos _
  omega

end Zmux
