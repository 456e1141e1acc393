import Zmux.Wire.Bytes

/-! Byte strings as hexadecimal text, and back. -/

namespace Wire

/-- The two digits of a byte, the high half first. -/
def hexPair (byte : UInt8) : List Char :=
  [Nat.digitChar (byte.toNat / 16), Nat.digitChar (byte.toNat % 16)]

/-- The text of a byte string in lower-case digits. -/
def hexText (data : Bytes) : String := String.ofList (data.flatMap hexPair)

/-- The value of a digit, in either case of its letters. -/
def hexValue (digit : Char) : Option Nat :=
  if '0' ≤ digit ∧ digit ≤ '9' then some (digit.toNat - '0'.toNat)
  else if 'a' ≤ digit ∧ digit ≤ 'f' then some (digit.toNat - 'a'.toNat + 10)
  else if 'A' ≤ digit ∧ digit ≤ 'F' then some (digit.toNat - 'A'.toNat + 10)
  else none

/-- The white space that may stand between two bytes. -/
def isHexSpace (letter : Char) : Bool :=
  letter ∈ [' ', '\t', '\n', '\r', '\x0b', '\x0c']

/-- The bytes that digits stand for, two at a time. -/
def readHex : List Char → Option Bytes
  | [] => some []
  | [letter] => if isHexSpace letter then some [] else none
  | high :: low :: rest =>
    if isHexSpace high then readHex (low :: rest)
    else do
      let front ← hexValue high
      let back ← hexValue low
      let bytes ← readHex rest
      return UInt8.ofNat (16 * front + back) :: bytes

/-- A digit that is written is read as its own value, and is not white space. -/
theorem hexValue_digitChar {value : Nat} (small : value < 16) :
    hexValue (Nat.digitChar value) = some value ∧
      isHexSpace (Nat.digitChar value) = false := by
  -- There are sixteen digits.
  revert small value
  decide

/-- The digits of a byte string are read as that byte string. -/
theorem readHex_digits (data : Bytes) : readHex (data.flatMap hexPair) = some data := by
  induction data with
  | nil => rfl
  | cons byte data ih =>
    have small := byte.toNat_lt
    obtain ⟨front, solid⟩ := hexValue_digitChar (show byte.toNat / 16 < 16 by omega)
    have back := (hexValue_digitChar (show byte.toNat % 16 < 16 by omega)).1
    -- The two halves of a byte make it up again.
    have whole : UInt8.ofNat (16 * (byte.toNat / 16) + byte.toNat % 16) = byte := by
      rw [Nat.div_add_mod, UInt8.ofNat_toNat]
    simp only [List.flatMap_cons, hexPair, List.cons_append, List.nil_append, readHex, solid,
      Bool.false_eq_true, if_false, front, back, Option.bind_eq_bind, Option.bind_some, ih, whole,
      Option.pure_def]

/-- The text of a byte string is read as that byte string. -/
theorem readHex_hexText (data : Bytes) : readHex (hexText data).toList = some data := by
  rw [hexText, String.toList_ofList, readHex_digits]

end Wire
