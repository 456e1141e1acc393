import Zmux.Codec.VarintLaws
import Zmux.Wire.Scan

/-! The reads a frame is decoded with, each confined to the bytes up to the end of its record. -/

namespace Zmux

open Wire

/-- A failure without the wording of its reason. -/
def Failure.unworded : Failure → Failure
  | decodeError code _ => decodeError code ""
  | other => other

/-- Failures count as the same when only the wording of their reasons differs. -/
instance : Setoid Failure where
  r left right := left.unworded = right.unworded
  iseqv := ⟨fun _ => rfl, Eq.symm, Eq.trans⟩

/-- The failure of reading beyond the end of a frame. -/
def truncatedFrame : Failure := .decodeError FE "truncated frame"

/-- Refuse to read past the end of the record. -/
def need (pos n stop : Nat) : Except Failure Unit := raiseIf (pos + n > stop) truncatedFrame

/-- A window begins with the bytes at its position. -/
private theorem slice_window {buf : Bytes} {pos stop n : Nat} (fits : pos + n ≤ stop) :
    slice (slice buf pos stop) 0 n = slice buf pos (pos + n) := by
  -- A window that is wide enough contains the bytes at its own positions.
  rw [slice_slice (by omega), Nat.add_zero]

/-- A byte of a window is that of the buffer. -/
private theorem item_window {buf : Bytes} {pos stop : Nat} (fits : pos < stop) :
    item (slice buf pos stop) 0 = item buf pos := by
  -- The first byte of a window is the byte at its position.
  have below : 0 < stop - pos := by omega
  simp [item, slice, List.getElem?_drop, below]

section Reads

variable {buf : Bytes} {pos stop next : Nat}

/-- What reading so many bytes does in a buffer, before a stop. -/
def runTake (n : Nat) (buf : Bytes) (pos stop : Nat) : Except Failure (Bytes × Nat) := do
  need pos n stop
  return (slice buf pos (pos + n), pos + n)

/-- What takes so many bytes stops inside the window. -/
theorem runTake_inside {n : Nat} {bytes : Bytes} (_ : pos ≤ stop) (_ : stop ≤ buf.length)
    (read : runTake n buf pos stop = .ok (bytes, next)) : pos ≤ next ∧ next ≤ stop := by
  -- The check bounds the position behind the bytes by the stop.
  simp only [runTake, need, bind_eq_ok, raiseIf_eq_ok, pure_ok, Except.ok.injEq,
    Prod.mk.injEq] at read
  obtain ⟨_, fits, -, rfl⟩ := read
  omega

/-- Bytes are taken from a window as they are from the buffer. -/
theorem runTake_moved {n : Nat} (ordered : pos ≤ stop) (_ : stop ≤ buf.length) :
    runTake n buf pos stop = advance pos (runTake n (slice buf pos stop) 0 (stop - pos)) := by
  -- The bytes are missing from the window exactly when they run past the stop.
  by_cases fits : pos + n ≤ stop
  · have inner : ¬ n > stop - pos := by omega
    have outer : ¬ pos + n > stop := by omega
    simp only [runTake, need, raiseIf, Nat.zero_add, if_neg inner, if_neg outer, ok_bind, pure_ok,
      advance, map_ok, slice_window fits]
  · have inner : n > stop - pos := by omega
    have outer : pos + n > stop := by omega
    simp only [runTake, need, raiseIf, Nat.zero_add, if_pos inner, if_pos outer, error_bind,
      advance, map_error]

/-- The next `n` bytes, all of them inside the record. -/
def take (n : Nat) : Scan Failure Bytes := .exact (runTake n) runTake_inside runTake_moved

/-- What reading a byte does in a buffer, before a stop. -/
def runOctet (buf : Bytes) (pos stop : Nat) : Except Failure (UInt8 × Nat) := do
  need pos 1 stop
  let byte ← item buf pos
  return (byte, pos + 1)

/-- What takes one byte stops inside the window. -/
theorem runOctet_inside {byte : UInt8} (_ : pos ≤ stop) (_ : stop ≤ buf.length)
    (read : runOctet buf pos stop = .ok (byte, next)) : pos ≤ next ∧ next ≤ stop := by
  -- The check leaves room for the one byte read.
  simp only [runOctet, need, bind_eq_ok, raiseIf_eq_ok, pure_ok, Except.ok.injEq,
    Prod.mk.injEq] at read
  obtain ⟨_, fits, _, -, -, rfl⟩ := read
  omega

/-- A byte is taken from a window as it is from the buffer. -/
theorem runOctet_moved (ordered : pos ≤ stop) (_ : stop ≤ buf.length) :
    runOctet buf pos stop = advance pos (runOctet (slice buf pos stop) 0 (stop - pos)) := by
  -- The byte is missing from the window exactly when the position is the stop.
  by_cases fits : pos < stop
  · have inner : ¬ 0 + 1 > stop - pos := by omega
    have outer : ¬ pos + 1 > stop := by omega
    simp only [runOctet, need, raiseIf, if_neg inner, if_neg outer, ok_bind, item_window fits]
    cases item buf pos <;> rfl
  · have inner : 0 + 1 > stop - pos := by omega
    have outer : pos + 1 > stop := by omega
    simp only [runOctet, need, raiseIf, if_pos inner, if_pos outer, error_bind, advance, map_error]

/-- The next byte, inside the record. -/
def octet : Scan Failure UInt8 := .exact runOctet runOctet_inside runOctet_moved

/-- What reading the rest does in a buffer, before a stop. -/
def runRest (buf : Bytes) (pos stop : Nat) : Except Failure (Bytes × Nat) :=
  .ok (slice buf pos stop, stop)

/-- What takes the rest stops at the end of the window. -/
theorem runRest_inside {bytes : Bytes} (ordered : pos ≤ stop) (_ : stop ≤ buf.length)
    (read : runRest buf pos stop = .ok (bytes, next)) : pos ≤ next ∧ next ≤ stop := by
  -- Reading everything ends at the stop.
  simp only [runRest, Except.ok.injEq, Prod.mk.injEq] at read
  obtain ⟨-, rfl⟩ := read
  exact ⟨ordered, Nat.le_refl _⟩

/-- The rest is taken from a window as it is from the buffer. -/
theorem runRest_moved (ordered : pos ≤ stop) (_ : stop ≤ buf.length) :
    runRest buf pos stop = advance pos (runRest (slice buf pos stop) 0 (stop - pos)) := by
  -- The window is what lies between the position and the stop.
  have past : pos + (stop - pos) = stop := by omega
  have window := @slice_window buf pos stop (stop - pos) (by omega)
  simp only [runRest, advance, map_ok, window, past]

/-- Every byte up to the end of the record. -/
def rest : Scan Failure Bytes := .exact runRest runRest_inside runRest_moved

end Reads

/-- What reading an integer does in a buffer, before a stop. -/
def runV (buf : Bytes) (pos stop : Nat) : Except Failure (Nat × Nat) := do
  raiseIf (pos ≥ stop) truncatedFrame
  let (val, pos2, _) ← decodeVarint buf pos FE
  -- An integer that ends past the stop is refused only after it has been decoded.
  raiseIf (pos2 > stop) truncatedFrame
  return (val, pos2)

/-- An integer is read exactly where its form lies before the stop. -/
theorem runV_eq_ok {buf : Bytes} {pos stop value next : Nat} :
    runV buf pos stop = .ok (value, next) ↔ ∃ width rest, VarintLegal value width ∧
      next = pos + width ∧ next ≤ stop ∧ buf.drop pos = varintForm value width ++ rest := by
  -- Decoding finds a form in the buffer, and the last check keeps it before the stop.
  simp only [runV, bind_eq_ok, raiseIf_eq_ok, pure_ok, Except.ok.injEq, Prod.mk.injEq, Prod.exists,
    decodeVarint_eq_ok]
  constructor
  · intro read
    rcases read with ⟨_, start, _, _, width, ⟨legal, rfl, rest, continues⟩, _, fits, rfl, rfl⟩
    exact ⟨width, rest, legal, rfl, by omega, continues⟩
  · intro read
    rcases read with ⟨width, rest, legal, rfl, fits, continues⟩
    have positive := varint_positive legal
    exact ⟨(), by omega, value, _, width, ⟨legal, rfl, rest, continues⟩, (), by omega, rfl, rfl⟩

/-- An integer that cannot be read is a truncated frame, however that is worded. -/
theorem runV_error {buf : Bytes} {pos stop : Nat} {fault : Failure}
    (failed : runV buf pos stop = .error fault) : fault ≈ truncatedFrame := by
  -- Three checks can fail, each with the code of a frame error but in its own words.
  simp only [runV, bind_eq_error, raiseIf_eq_error, pure_ok, Prod.exists,
    decodeVarint_eq_error] at failed
  rcases failed with ⟨-, rfl⟩ | ⟨_, -, ⟨rfl, -⟩ | ⟨_, _, _, -, ⟨-, rfl⟩ | ⟨_, -, failed⟩⟩⟩
  · rfl
  · rfl
  · rfl
  · cases failed

section Integer

variable {buf : Bytes} {pos stop value next : Nat}

/-- What reads an integer stops inside the window. -/
theorem runV_inside (_ : pos ≤ stop) (_ : stop ≤ buf.length)
    (read : runV buf pos stop = .ok (value, next)) : pos ≤ next ∧ next ≤ stop := by
  -- A form has a positive width and ends before the stop.
  obtain ⟨width, rest, -, rfl, fits, -⟩ := runV_eq_ok.mp read
  exact ⟨by omega, fits⟩

/-- An integer is read from a suffix as it is from the buffer. -/
theorem runV_suffixed (within : pos ≤ buf.length) : runV buf pos buf.length =
    advance pos (runV (buf.drop pos) 0 (buf.length - pos)) := by
  -- The end of the buffer is the end of the suffix, so even the wording agrees.
  by_cases start : pos ≥ buf.length
  · have inner : 0 ≥ buf.length - pos := by omega
    simp only [runV, raiseIf, if_pos start, if_pos inner, error_bind, advance, map_error]
  · have inner : ¬ 0 ≥ buf.length - pos := by omega
    simp only [runV, raiseIf, if_neg start, if_neg inner, ok_bind, decodeVarint_drop buf pos]
    cases decoded : decodeVarint (buf.drop pos) 0 FE with
    | error fault => rfl
    | ok answer =>
      obtain ⟨value, next, width⟩ := answer
      have bound := (decodeVarint_forward decoded).2
      rw [List.length_drop] at bound
      have outer : ¬ pos + next > buf.length := by omega
      have inner : ¬ next > buf.length - pos := by omega
      simp only [map_ok, ok_bind, if_neg outer, if_neg inner, pure_ok, advance]

/-- An integer is read from a window as it is from the buffer, or both fail. -/
theorem runV_windowed (ordered : pos ≤ stop) (_ : stop ≤ buf.length) :
    Agree (runV buf pos stop) (advance pos (runV (slice buf pos stop) 0 (stop - pos))) := by
  -- Both sides answer on the same forms, and every failure is a truncated frame.
  cases moved : runV (slice buf pos stop) 0 (stop - pos) with
  | ok answer =>
    obtain ⟨width, rest, legal, next, fits, continues⟩ := runV_eq_ok.mp moved
    have here : runV buf pos stop = .ok (answer.1, pos + answer.2) := by
      refine runV_eq_ok.mpr ⟨width, rest ++ buf.drop stop, legal, by omega, by omega, ?_⟩
      rw [← slice_append_drop ordered, ← List.append_assoc, ← continues, List.drop_zero]
    rw [here]
    rfl
  | error fault =>
    have words := runV_error moved
    cases here : runV buf pos stop with
    | error other => exact Setoid.trans (runV_error here) (Setoid.symm words)
    | ok answer =>
      -- A form before the stop would have been read in the window too.
      obtain ⟨width, rest, legal, next, fits, continues⟩ := runV_eq_ok.mp here
      have wide := varintForm_length legal
      have again : runV (slice buf pos stop) 0 (stop - pos) = .ok (answer.1, width) := by
        refine runV_eq_ok.mpr ⟨width, rest.take (stop - pos - width), legal, by omega, by omega, ?_⟩
        rw [List.drop_zero, slice, continues, List.take_append, wide,
          List.take_of_length_le (by omega)]
      rw [moved] at again
      cases again

end Integer

/-- The next variable-length integer, all of it inside the record. -/
def readV : Scan Failure Nat where
  run := runV
  inside := runV_inside
  suffixed := runV_suffixed
  windowed := runV_windowed

/-- The next bytes are a prefix of the window. -/
theorem take_on {n : Nat} {window bytes left : Bytes} :
    (take n).on window = .ok (bytes, left) ↔ window = bytes ++ left ∧ bytes.length = n := by
  -- Reading in place and cutting off a prefix are the same on the whole window.
  simp only [Scan.on, take, Scan.exact, runTake, need, Nat.zero_add, map_eq_ok, bind_eq_ok,
    raiseIf_eq_ok, pure_ok, Except.ok.injEq, Prod.mk.injEq, slice, List.drop_zero, Nat.sub_zero]
  constructor
  · intro read
    rcases read with ⟨_, ⟨_, fits, rfl⟩, rfl, rfl⟩
    exact ⟨(List.take_append_drop n window).symm, List.length_take_of_le (by omega)⟩
  · intro read
    rcases read with ⟨rfl, rfl⟩
    exact ⟨_, ⟨(), by simp, rfl⟩, by simp, by simp⟩

/-- The next byte is the first of the window. -/
theorem octet_on {window left : Bytes} {byte : UInt8} :
    octet.on window = .ok (byte, left) ↔ window = byte :: left := by
  -- An empty window has no first byte, and any other begins with one.
  cases window with
  | nil => simp [Scan.on, octet, Scan.exact, runOctet, need, raiseIf]
  | cons first others => simp [Scan.on, octet, Scan.exact, runOctet, need, raiseIf, item]

/-- Everything up to the end is the whole window. -/
@[simp] theorem rest_on (window : Bytes) : rest.on window = .ok (window, []) := by
  simp [Scan.on, rest, Scan.exact, runRest, slice]

/-- An integer is read exactly where the window starts with one of its forms. -/
theorem readV_on {window left : Bytes} {value : Nat} :
    readV.on window = .ok (value, left) ↔ Begins varintFormat value window left := by
  -- Behind the form the window goes on, which is what the reader leaves.
  have run : readV.run = runV := rfl
  simp only [Scan.on, run, map_eq_ok, Prod.exists, runV_eq_ok, List.drop_zero, Nat.zero_add,
    Prod.mk.injEq]
  constructor
  · intro read
    rcases read with ⟨_, _, ⟨_, behind, legal, rfl, -, rfl⟩, rfl, rfl⟩
    refine ⟨_, legal, ?_⟩
    rw [List.drop_left' (varintForm_length legal)]
    rfl
  · intro begins
    obtain ⟨width, legal, rfl⟩ := begins
    have wide := varintFormat.form_length legal
    exact ⟨value, width, ⟨width, left, legal, rfl, by simp [wide], rfl⟩, rfl,
      List.drop_left' wide⟩

end Zmux
