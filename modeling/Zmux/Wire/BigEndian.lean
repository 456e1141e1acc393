import Mathlib.Algebra.Group.Nat.Defs
import Mathlib.Data.List.Induction
import Zmux.Wire.Bytes

/-! Numbers written in base 256, most significant byte first. -/

namespace Wire

/-- The last bytes of a number, most significant first. -/
def bigEndian : Nat → Nat → Bytes
  | 0, _ => []
  | width + 1, number => bigEndian width (number / 256) ++ [UInt8.ofNat number]

/-- The number a byte string stands for, continuing from the bytes already read. -/
def foldBytes (start : Nat) (digits : Bytes) : Nat :=
  -- The loop reads from the left, each step moving what it has up by one digit.
  digits.foldl (fun value byte => value * 256 + byte.toNat) start

/-- A number has so many bytes. -/
@[simp] theorem bigEndian_length (width number : Nat) : (bigEndian width number).length = width := by
  induction width generalizing number with
  | zero => rfl
  | succ width ih => simp [bigEndian, ih]

/-- The bytes already read are the high digits of the number. -/
theorem foldBytes_eq (start : Nat) (digits : Bytes) :
    foldBytes start digits = start * 256 ^ digits.length + foldBytes 0 digits := by
  -- Each further byte multiplies the start once more, which the power collects.
  induction digits generalizing start with
  | nil => simp [foldBytes]
  | cons digit digits ih =>
    have head : foldBytes start (digit :: digits) =
        foldBytes (start * 256 + digit.toNat) digits := rfl
    have zero : foldBytes 0 (digit :: digits) = foldBytes (0 * 256 + digit.toNat) digits := rfl
    rw [head, zero, ih (start * 256 + _), ih (0 * 256 + _), List.length_cons, Nat.pow_succ,
      Nat.zero_mul, Nat.zero_add, Nat.add_mul, Nat.mul_assoc, Nat.mul_comm 256, Nat.add_assoc]

/-- Bytes read in two parts are read as one byte string. -/
theorem foldBytes_append (start : Nat) (front back : Bytes) :
    foldBytes start (front ++ back) = foldBytes (foldBytes start front) back :=
  List.foldl_append

/-- Zero bytes add nothing, so no bytes of their number make a smaller one. -/
theorem foldBytes_replicate_le (start : Nat) (digits : Bytes) :
    foldBytes start (List.replicate digits.length 0) ≤ foldBytes start digits := by
  -- Only what the start contributes is left when every digit is zero.
  have zero : ∀ count, foldBytes 0 (List.replicate count 0) = 0 := by
    intro count
    induction count with
    | zero => rfl
    | succ count ih => exact ih
  rw [foldBytes_eq, foldBytes_eq start digits, zero, List.length_replicate]
  omega

/-- A byte string of a width stands for a number below the power of that width. -/
theorem foldBytes_lt (digits : Bytes) : foldBytes 0 digits < 256 ^ digits.length := by
  -- The induction is on the bytes from the front, so the rest is bounded before the first digit.
  induction digits with
  | nil => simp [foldBytes]
  | cons digit digits ih =>
    have head : foldBytes 0 (digit :: digits) = foldBytes (0 * 256 + digit.toNat) digits := rfl
    have small := digit.toNat_lt
    rw [head, foldBytes_eq, List.length_cons, Nat.pow_succ, Nat.zero_mul, Nat.zero_add]
    -- The high digit contributes at most 255 of the 256 parts of the range.
    have scaled := Nat.mul_le_mul_right (256 ^ digits.length) (show digit.toNat ≤ 255 by omega)
    omega

/-- A number is read back from its bytes as far as they reach. -/
theorem foldBytes_bigEndian (width number : Nat) :
    foldBytes 0 (bigEndian width number) = number % 256 ^ width := by
  -- Writing peels off the last byte, so the induction reads the quotient first.
  induction width generalizing number with
  | zero => simp [bigEndian, foldBytes, Nat.mod_one]
  | succ width ih =>
    have last : foldBytes 0 (bigEndian (width + 1) number) =
        foldBytes 0 (bigEndian width (number / 256)) * 256 + (UInt8.ofNat number).toNat := by
      simp [bigEndian, foldBytes]
    have byte : (UInt8.ofNat number).toNat = number % 256 := UInt8.toNat_ofNat'
    rw [last, ih, byte, Nat.pow_succ, Nat.mul_comm (256 ^ width), Nat.mod_mul]
    omega

/-- The first byte holds the digits above the remaining width. -/
theorem bigEndian_succ (width number : Nat) : bigEndian (width + 1) number =
    UInt8.ofNat (number / 256 ^ width) :: bigEndian width number := by
  induction width generalizing number with
  | zero => simp [bigEndian]
  | succ width ih =>
    -- The last byte stays where it is, and the bytes before it split by induction.
    rw [bigEndian, ih, Nat.div_div_eq_div_mul, ← Nat.pow_succ', List.cons_append]
    rfl

/-- High digits beyond the width do not change the bytes written. -/
theorem bigEndian_add (width high low : Nat) :
    bigEndian width (high * 256 ^ width + low) = bigEndian width low := by
  -- Dividing by 256 lowers the power of the high digits together with the width.
  induction width generalizing high low with
  | zero => rfl
  | succ width ih =>
    have split : high * 256 ^ (width + 1) + low = high * 256 ^ width * 256 + low := by
      rw [Nat.pow_succ, Nat.mul_assoc]
    have quotient : (high * 256 ^ (width + 1) + low) / 256 = high * 256 ^ width + low / 256 := by
      rw [split]
      omega
    have remainder : UInt8.ofNat (high * 256 ^ (width + 1) + low) = UInt8.ofNat low := by
      apply UInt8.toNat_inj.mp
      rw [split, UInt8.toNat_ofNat', UInt8.toNat_ofNat']
      omega
    simp only [bigEndian, quotient, remainder, ih]

/-- Bytes are written back from the number they stand for. -/
theorem bigEndian_foldBytes (digits : Bytes) :
    bigEndian digits.length (foldBytes 0 digits) = digits := by
  -- Writing works from the last byte, so the induction appends one byte at a time.
  induction digits using List.reverseRecOn with
  | nil => rfl
  | append_singleton digits digit ih =>
    have last : foldBytes 0 (digits ++ [digit]) = foldBytes 0 digits * 256 + digit.toNat := by
      simp [foldBytes]
    have small := digit.toNat_lt
    have quotient : (foldBytes 0 digits * 256 + digit.toNat) / 256 = foldBytes 0 digits := by omega
    have remainder : UInt8.ofNat (foldBytes 0 digits * 256 + digit.toNat) = digit := by
      apply UInt8.toNat_inj.mp
      rw [UInt8.toNat_ofNat']
      omega
    rw [List.length_append, List.length_singleton, bigEndian, last, quotient, remainder, ih]

end Wire
