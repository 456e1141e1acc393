import Zmux.Codec.Records
import Zmux.Proofs.Payloads
import Zmux.Wire.Framing

/-! Records are self-delimiting: a record once decoded does not depend on the bytes behind it. -/

namespace Zmux

open Wire

variable {enabled : Gates} {most size width : Nat} {window rest : Bytes}

/-- A record whose size is not complete is not decoded. -/
theorem decodeRecord_unsized {fault : Failure} (unsized : decodeVarint window 0 FE = .error fault) :
    decodeRecord window 0 most enabled = .ok (none, 0) := by
  -- Either there is no byte at all, or there are fewer than the first one announces.
  cases window with
  | nil => rfl
  | cons first others =>
    have start : ¬ 0 ≥ (first :: others).length := by simp
    have found : item (first :: others) 0 = .ok first := rfl
    have short := (decodeVarint_eq_error.mp unsized).2 first others rfl
    have wide : 0 + 1 <<< (first.toNat >>> 6) > (first :: others).length := by
      rw [List.length_cons, Nat.zero_add]
      exact short
    simp only [decodeRecord, if_neg start, found, ok_bind, if_pos wide, pure_ok]

/-- The first byte of a form announces its width. -/
theorem varintForm_head (legal : VarintLegal size width) :
    ∃ first digits, varintForm size width = first :: digits ∧
      1 <<< (first.toNat >>> 6) = width := by
  -- The form is written with its first byte apart, which holds the width bits.
  refine ⟨_, _, rfl, ?_⟩
  obtain ⟨announced, -, small⟩ := varintForm_first legal
  rw [high_bits, UInt8.toNat_ofNat_of_lt' small, announced]

/-- Behind a complete size, a record is refused, awaited, or decoded. -/
theorem decodeRecord_sized (legal : VarintLegal size width) :
    decodeRecord (varintForm size width ++ rest) 0 most enabled = (do
      raiseIf (size = 0) (.decodeError FE "empty record")
      raiseIf (size > most) (.decodeError FE "record larger than max_record_size")
      if rest.length < size then return (none, 0)
      else (decodeFrames (rest.take size) enabled).map fun frames => (some frames, width + size)) := by
  -- The checks of the size come first, and then the body is there or it is not.
  obtain ⟨first, digits, form, announced⟩ := varintForm_head legal
  have wide := varintForm_length legal
  have decoded := @decodeVarint_at size width rest legal
  have total : (varintForm size width ++ rest).length = width + rest.length := by
    rw [List.length_append, wide]
  have positive : 0 < width := by
    rw [← wide, form]
    exact Nat.zero_lt_succ _
  have start : ¬ 0 ≥ width + rest.length := by omega
  have found : item (varintForm size width ++ rest) 0 = .ok first := by rw [form]; rfl
  have whole : ¬ 0 + width > width + rest.length := by omega
  have body : slice (varintForm size width ++ rest) width (width + size) = rest.take size := by
    rw [slice, List.drop_left' wide, Nat.add_sub_cancel_left]
  -- The comparison with the end of the buffer is one with what follows the size.
  have tail : (if width + size > width + rest.length then pure (none, 0) else do
      let frames ← decodeFrames (slice (varintForm size width ++ rest) width (width + size)) enabled
      return (some frames, width + size)) =
      (if rest.length < size then pure (none, 0)
      else (decodeFrames (rest.take size) enabled).map fun frames => (some frames, width + size)) := by
    rw [body]
    by_cases short : rest.length < size
    · rw [if_pos short, if_pos (by omega)]
    · rw [if_neg short, if_neg (by omega)]
      cases decodeFrames (rest.take size) enabled <;> rfl
  simp only [decodeRecord, total, if_neg start, found, ok_bind, announced, if_neg whole, decoded,
    tail]

/-- A record at a position is decoded as it is in the suffix alone. -/
theorem decodeRecord_drop (buf : Bytes) (pos : Nat) : decodeRecord buf pos most enabled =
    (decodeRecord (buf.drop pos) 0 most enabled).map fun answer => (answer.1, pos + answer.2) := by
  -- Each branch compares positions, which the suffix shifts by the same distance.
  have width : (buf.drop pos).length = buf.length - pos := List.length_drop
  by_cases past : pos ≥ buf.length
  · have ended : buf.drop pos = [] := List.drop_eq_nil_of_le past
    rw [decodeRecord, if_pos past, ended]
    rfl
  have start : ¬ 0 ≥ (buf.drop pos).length := by omega
  have suffix := List.drop_eq_getElem_cons (Nat.lt_of_not_le past)
  have here : item buf pos = .ok buf[pos] := by simp [item, Nat.lt_of_not_le past]
  have there : item (buf.drop pos) 0 = .ok buf[pos] := by rw [suffix]; rfl
  simp only [decodeRecord, if_neg past, if_neg start, here, there, ok_bind]
  by_cases short : pos + 1 <<< (buf[pos].toNat >>> 6) > buf.length
  · rw [if_pos short, if_pos (by omega)]
    rfl
  rw [if_neg short, if_neg (by omega), decodeVarint_drop buf pos]
  cases decodeVarint (buf.drop pos) 0 FE with
  | error fault => rfl
  | ok answer =>
    obtain ⟨size, next, taken⟩ := answer
    -- The body lies at the same distance behind both positions.
    have body : slice buf (pos + next) (pos + next + size) =
        slice (buf.drop pos) next (next + size) := by
      simp only [slice, List.drop_drop, Nat.add_sub_cancel_left]
    simp only [map_ok, ok_bind, body]
    cases raiseIf (size = 0) (Failure.decodeError FE "empty record") with
    | error fault => rfl
    | ok answer =>
      cases raiseIf (size > most) (Failure.decodeError FE "record larger than max_record_size") with
      | error fault => rfl
      | ok answer =>
        simp only [ok_bind]
        by_cases missing : pos + next + size > buf.length
        · rw [if_pos missing, if_pos (by omega)]
          rfl
        · rw [if_neg missing, if_neg (by omega)]
          cases decodeFrames (slice (buf.drop pos) next (next + size)) enabled with
          | error fault => rfl
          | ok frames => simp only [ok_bind, pure_ok, map_ok, Nat.add_assoc]

/--
Bytes wait for more when they are a strict prefix of a record.

A record is a size and so many bytes, and a size that is complete must be from one up to the limit.
-/
def Awaiting (most : Nat) (window : Bytes) : Prop :=
  ∃ size width body, VarintLegal size width ∧ body.length = size ∧
    window <+: varintForm size width ++ body ∧ window.length < width + size ∧
    (width ≤ window.length → 1 ≤ size ∧ size ≤ most)

/-- Bytes that do not complete a size begin some record. -/
theorem awaiting_unsized {fault : Failure} (unsized : decodeVarint window 0 FE = .error fault) :
    Awaiting most window := by
  -- A record with the announced width is made up, of which these bytes are a front.
  have short := (decodeVarint_eq_error.mp unsized).2
  cases window with
  | nil =>
    exact ⟨1, 1, [0], ⟨.inl rfl, by decide⟩, rfl, List.nil_prefix, by decide,
      fun held => absurd held (by decide)⟩
  | cons first others =>
    have few := short first others rfl
    -- The missing bytes of the size are filled with zeros.
    have wide : (others ++ List.replicate (announcedWidth first - 1 - others.length) 0).length + 1 =
        announcedWidth first := by
      rw [List.length_append, List.length_replicate]
      omega
    obtain ⟨legal, form⟩ := form_of_first first _ wide
    refine ⟨_, _, List.replicate _ 0, legal, List.length_replicate, ?_, ?_, ?_⟩
    · rw [form, List.cons_append, List.append_assoc]
      exact (List.cons_prefix_cons.mpr ⟨rfl, List.prefix_append _ _⟩)
    · rw [List.length_cons]
      omega
    · intro held
      rw [List.length_cons] at held
      omega

/-- No record is decoded exactly while bytes are awaited. -/
theorem decodeRecord_none_iff {next : Nat} :
    decodeRecord window 0 most enabled = .ok (none, next) ↔ next = 0 ∧ Awaiting most window := by
  -- Without a size both sides hold, and with one the body decides.
  cases sized : decodeVarint window 0 FE with
  | error fault =>
    rw [decodeRecord_unsized sized]
    simp only [Except.ok.injEq, Prod.mk.injEq, true_and]
    exact ⟨fun same => ⟨same.symm, awaiting_unsized sized⟩, fun waits => waits.1.symm⟩
  | ok answer =>
    obtain ⟨size, _, width⟩ := answer
    obtain ⟨legal, -, rest, rfl⟩ := decodeVarint_begin.mp sized
    have wide := varintForm_length legal
    rw [decodeRecord_sized legal]
    constructor
    · intro decoded
      simp only [bind_eq_ok, raiseIf_eq_ok] at decoded
      obtain ⟨-, positive, -, small, decoded⟩ := decoded
      split at decoded
      -- The missing bytes of the body are filled with zeros.
      · rename_i short
        simp only [pure_ok, Except.ok.injEq, Prod.mk.injEq, true_and] at decoded
        refine ⟨decoded.symm, size, width, rest ++ List.replicate (size - rest.length) 0, legal, ?_,
          ?_, ?_, fun _ => by omega⟩
        · rw [List.length_append, List.length_replicate]
          omega
        · rw [← List.append_assoc]
          exact List.prefix_append _ _
        · rw [List.length_append, wide]
          omega
      · simp at decoded
    · intro waits
      obtain ⟨rfl, other, taken, body, lawful, total, ⟨tail, same⟩, short, range⟩ := waits
      -- The size that is there is the size of the record that the bytes begin.
      rw [List.append_assoc] at same
      obtain ⟨rfl, rfl, rfl⟩ := varintFormat.decodable legal lawful same
      rw [List.length_append, wide] at short range
      obtain ⟨positive, small⟩ := range (by omega)
      have some : ¬ size = 0 := by omega
      have fits : ¬ size > most := by omega
      have few : rest.length < size := by omega
      simp only [raiseIf, if_neg some, if_neg fits, ok_bind, if_pos few, pure_ok]

/-- A record is decoded exactly where its whole body follows its size. -/
theorem decodeRecord_some_iff {frames : List Frame} {next : Nat} :
    decodeRecord window 0 most enabled = .ok (some frames, next) ↔
      ∃ width body rest, VarintLegal body.length width ∧
        window = varintForm body.length width ++ (body ++ rest) ∧
        1 ≤ body.length ∧ body.length ≤ most ∧ next = width + body.length ∧
        decodeFrames body enabled = .ok frames := by
  -- The window is split behind the size, and again behind the body.
  constructor
  · intro decoded
    cases sized : decodeVarint window 0 FE with
    | error fault =>
      rw [decodeRecord_unsized sized] at decoded
      cases decoded
    | ok answer =>
      obtain ⟨size, _, width⟩ := answer
      obtain ⟨legal, -, rest, rfl⟩ := decodeVarint_begin.mp sized
      rw [decodeRecord_sized legal] at decoded
      simp only [bind_eq_ok, raiseIf_eq_ok] at decoded
      obtain ⟨-, positive, -, small, decoded⟩ := decoded
      split at decoded
      · cases decoded
      · simp only [map_eq_ok, Prod.mk.injEq, Option.some.injEq] at decoded
        obtain ⟨_, decoded, rfl, rfl⟩ := decoded
        -- The body is cut to its size, and what follows it is left.
        have long : (rest.take size).length = size := List.length_take_of_le (by omega)
        refine ⟨width, rest.take size, rest.drop size, ?_, ?_, ?_, ?_, ?_, decoded⟩
        · rw [long]
          exact legal
        · rw [long, List.take_append_drop]
        all_goals omega
  · intro record
    obtain ⟨width, body, rest, legal, rfl, positive, small, rfl, decoded⟩ := record
    have some : ¬ body.length = 0 := by omega
    have fits : ¬ body.length > most := by omega
    have whole : ¬ (body ++ rest).length < body.length := by simp
    rw [decodeRecord_sized legal]
    simp only [raiseIf, if_neg some, if_neg fits, ok_bind, if_neg whole, List.take_left, decoded,
      map_ok]

/-- More bytes change nothing about a record that is decoded or refused. -/
theorem decodeRecord_append (decided : ∀ next,
    decodeRecord window 0 most enabled ≠ .ok (none, next)) (more : Bytes) :
    decodeRecord (window ++ more) 0 most enabled = decodeRecord window 0 most enabled := by
  -- The decision is made by the size and the body, both of which are complete.
  cases sized : decodeVarint window 0 FE with
  | error fault => exact absurd (decodeRecord_unsized sized) (decided 0)
  | ok answer =>
    obtain ⟨size, _, width⟩ := answer
    obtain ⟨legal, -, rest, rfl⟩ := decodeVarint_begin.mp sized
    rw [List.append_assoc, decodeRecord_sized legal, decodeRecord_sized legal]
    rw [decodeRecord_sized legal] at decided
    by_cases empty : size = 0
    · simp only [raiseIf, if_pos empty, error_bind]
    by_cases large : size > most
    · simp only [raiseIf, if_neg empty, if_pos large, ok_bind, error_bind]
    simp only [raiseIf, if_neg empty, if_neg large, ok_bind] at decided ⊢
    by_cases short : rest.length < size
    · rw [if_pos short] at decided
      exact absurd rfl (decided 0)
    · have longer : ¬ (rest ++ more).length < size := by
        rw [List.length_append]
        omega
      rw [if_neg short, if_neg longer, List.take_append_of_le_length (by omega)]

/-- The records of a pipe, as a stream of self-delimiting items. -/
def recordFraming (most : Nat) (enabled : Gates) : Framing Failure (List Frame) where
  -- Each law is about a decided record, which more bytes leave as it is.
  next stream := (decodeRecord stream 0 most enabled).map fun answer =>
    answer.1.map fun frames => (frames, answer.2)
  next_nil := rfl
  progress {stream frames count} found := by
    obtain ⟨⟨decoded, next⟩, read, same⟩ := map_eq_ok.mp found
    cases decoded with
    | none => cases same
    | some decoded =>
      cases same
      exact decodeRecord_forward read
  item_stable {stream item} found more := by
    rw [decodeRecord_append ?_ more]
    · exact found
    · intro next waits
      rw [waits] at found
      cases found
  error_stable {stream fault} found more := by
    rw [decodeRecord_append ?_ more]
    · exact found
    · intro next waits
      rw [waits] at found
      cases found

section Next

variable {stream : Bytes}

/-- The stream of a pipe is refused where its first record is. -/
theorem recordFraming_error {fault : Failure}
    (found : decodeRecord stream 0 most enabled = .error fault) :
    (recordFraming most enabled).next stream = .error fault := by
  -- The framing changes answers only.
  simp only [recordFraming, found, map_error]

/-- The stream of a pipe waits for more while its first record does. -/
theorem recordFraming_none {next : Nat}
    (found : decodeRecord stream 0 most enabled = .ok (none, next)) :
    (recordFraming most enabled).next stream = .ok none := by
  -- Without a record there is nothing to report the bytes of.
  simp only [recordFraming, found, map_ok, Option.map_none]

/-- The stream of a pipe begins with its first record and the bytes that it takes. -/
theorem recordFraming_some {frames : List Frame} {next : Nat}
    (found : decodeRecord stream 0 most enabled = .ok (some frames, next)) :
    (recordFraming most enabled).next stream = .ok (some (frames, next)) := by
  -- The position behind the record is the number of bytes that it takes.
  simp only [recordFraming, found, map_ok, Option.map_some]

end Next

/-- A pipe that must end with a whole record may leave nothing behind the last one. -/
def atEnd (requireComplete : Bool) (answer : List (List Frame) × Bytes) :
    Except Failure (List (List Frame)) :=
  -- Bytes that are left over belong to a record that has not ended.
  if requireComplete = true ∧ answer.2 ≠ [] then
    .error (.decodeError FE "truncated record at end of pipe")
  else .ok answer.1

/-- The loop over a pipe, one record further. -/
theorem decodeStreamFrom_step {buf : Bytes} {pos : Nat} {requireComplete : Bool}
    (below : pos < buf.length) : decodeStreamFrom buf pos most enabled requireComplete =
      (decodeRecord buf pos most enabled >>= fun answer =>
        match answer with
        | (none, _) =>
          if requireComplete then .error (.decodeError FE "truncated record at end of pipe")
          else .ok []
        | (some frames, npos) =>
          (decodeStreamFrom buf npos most enabled requireComplete).map fun records =>
            frames :: records) := by
  -- The record of the loop is matched once, and then each of its outcomes is taken further.
  conv => lhs; rw [decodeStreamFrom, if_pos below]
  split <;> rename_i found <;> simp only [found] <;> rfl

/-- The loop over a pipe gives the items of the suffix it starts at. -/
theorem decodeStreamFrom_eq (buf : Bytes) (pos : Nat) (requireComplete : Bool) :
    decodeStreamFrom buf pos most enabled requireComplete =
      (recordFraming most enabled).items (buf.drop pos) >>= atEnd requireComplete := by
  -- The induction is on the bytes that are left, which every record shortens.
  induction width : buf.length - pos using Nat.strongRecOn generalizing pos with
  | _ width ih =>
    subst width
    by_cases below : pos < buf.length
    · have nonempty : buf.drop pos ≠ [] := by
        intro empty
        rw [List.drop_eq_nil_iff] at empty
        omega
      rw [decodeStreamFrom_step below, decodeRecord_drop]
      cases found : decodeRecord (buf.drop pos) 0 most enabled with
      | error fault =>
        rw [Framing.items_error (recordFraming_error found)]
        rfl
      | ok answer =>
        obtain ⟨decoded, taken⟩ := answer
        cases decoded with
        | none =>
          rw [Framing.items_none (recordFraming_none found)]
          simp [atEnd, nonempty]
        | some frames =>
          -- The loop goes on where the record ends, with fewer bytes.
          have forward := decodeRecord_forward found
          have further := ih (buf.length - (pos + taken)) (by omega) (pos + taken) rfl
          rw [Framing.items_some (recordFraming_some found), List.drop_drop]
          simp only [map_ok, ok_bind, further]
          cases (recordFraming most enabled).items (buf.drop (pos + taken)) with
          | error fault => rfl
          | ok rest =>
            simp only [ok_bind, map_ok, atEnd]
            split <;> rfl
    · have ended : buf.drop pos = [] := List.drop_eq_nil_of_le (by omega)
      rw [decodeStreamFrom, if_neg below, ended,
        Framing.items_none (recordFraming most enabled).next_nil]
      simp [atEnd]

/-- The records of a pipe are its items, and what is left of it is checked at the end. -/
theorem decodeStream_eq (buf : Bytes) (requireComplete : Bool) :
    decodeStream buf most enabled requireComplete =
      (recordFraming most enabled).items buf >>= atEnd requireComplete :=
  decodeStreamFrom_eq buf 0 requireComplete

end Zmux
