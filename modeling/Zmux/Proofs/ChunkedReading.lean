import Zmux.Proofs.Records

/-! Records read as the bytes of a pipe arrive are the records of the whole pipe. -/

namespace Zmux

open Wire

/-- Decode records from a position until the buffer holds no complete one. -/
def drain (buf : Bytes) (pos most : Nat) (enabled : Gates) :
    Except Failure (List (List Frame) × Nat) :=
  match found : decodeRecord buf pos most enabled with
  | .error fault => .error fault
  -- Nothing complete is left, so the position stays where the unfinished record begins.
  | .ok (none, next) => .ok ([], next)
  | .ok (some frames, next) => do
    have _forward := decodeRecord_forward found
    let (records, last) ← drain buf next most enabled
    return (frames :: records, last)
termination_by buf.length - pos

/-- A receiver of a pipe: the bytes so far, the records decoded, and the position behind them. -/
structure Receiver where
  buf : Bytes
  pos : Nat
  records : List (List Frame)
  /-- The position lies in the buffer. -/
  within : pos ≤ buf.length

/-- A receiver that has read nothing. -/
def Receiver.fresh : Receiver := ⟨[], 0, [], Nat.le_refl _⟩

variable {enabled : Gates} {most : Nat}

/-- The loop over a buffer, one record further. -/
theorem drain_step (buf : Bytes) (pos : Nat) : drain buf pos most enabled =
    (decodeRecord buf pos most enabled >>= fun answer =>
      match answer with
      | (none, next) => .ok ([], next)
      | (some frames, next) => (drain buf next most enabled).map fun rest =>
        (frames :: rest.1, rest.2)) := by
  -- The record of the loop is matched once, and then each of its outcomes is taken further.
  conv => lhs; rw [drain]
  split <;> rename_i found <;> simp only [found] <;> rfl

/-- Draining a buffer gives the items of the suffix, and stops where the unfinished one begins. -/
theorem drain_eq {buf : Bytes} {pos : Nat} (within : pos ≤ buf.length) :
    drain buf pos most enabled = ((recordFraming most enabled).items (buf.drop pos)).map
      fun answer => (answer.1, buf.length - answer.2.length) := by
  -- The induction is on the bytes that are left, which every record shortens.
  induction width : buf.length - pos using Nat.strongRecOn generalizing pos with
  | _ width ih =>
    subst width
    rw [drain_step, decodeRecord_drop]
    cases found : decodeRecord (buf.drop pos) 0 most enabled with
    | error fault =>
      rw [Framing.items_error (recordFraming_error found)]
      rfl
    | ok answer =>
      obtain ⟨decoded, taken⟩ := answer
      cases decoded with
      | none =>
        -- The position is the end of the buffer less the bytes that wait.
        obtain ⟨rfl, -⟩ := decodeRecord_none_iff.mp found
        rw [Framing.items_none (recordFraming_none found)]
        simp only [map_ok, ok_bind, List.length_drop, Nat.add_zero, Except.ok.injEq, Prod.mk.injEq,
          true_and]
        omega
      | some frames =>
        obtain ⟨forward, short⟩ := decodeRecord_forward found
        rw [List.length_drop] at short
        have further := @ih (buf.length - (pos + taken)) (by omega) (pos + taken) (by omega) rfl
        rw [Framing.items_some (recordFraming_some found), List.drop_drop]
        simp only [map_ok, ok_bind, further]
        cases (recordFraming most enabled).items (buf.drop (pos + taken)) <;> rfl

/-- The records that are read end inside the buffer. -/
theorem drain_within {buf : Bytes} {pos last : Nat} {records : List (List Frame)}
    (within : pos ≤ buf.length) (drained : drain buf pos most enabled = .ok (records, last)) :
    last ≤ buf.length := by
  -- The last position is counted back from the end of the buffer.
  rw [drain_eq within] at drained
  obtain ⟨answer, -, same⟩ := map_eq_ok.mp drained
  cases same
  exact Nat.sub_le _ _

/-- Take in the bytes of one read, and decode every record that they complete. -/
def Receiver.read (most : Nat) (enabled : Gates) (receiver : Receiver) (chunk : Bytes) :
    Except Failure Receiver :=
  have longer : receiver.pos ≤ (receiver.buf ++ chunk).length := by
    rw [List.length_append]
    exact Nat.le_add_right_of_le receiver.within
  -- The buffer keeps what has been read, and the position moves past what was decoded.
  match drained : drain (receiver.buf ++ chunk) receiver.pos most enabled with
  | .error fault => .error fault
  | .ok (records, last) =>
    .ok ⟨receiver.buf ++ chunk, last, receiver.records ++ records, drain_within longer drained⟩

/-- A receiver seen as the records it has decoded and the bytes that wait for more. -/
def Receiver.view (receiver : Receiver) : List (List Frame) × Bytes :=
  -- Bytes in front of the position have no influence on what is decoded next.
  (receiver.records, receiver.buf.drop receiver.pos)

/-- Each read of a receiver is one step of the framing. -/
theorem Receiver.read_view (receiver : Receiver) (chunk : Bytes) :
    (receiver.read most enabled chunk).map view =
      (recordFraming most enabled).feed receiver.view chunk := by
  -- Appending a chunk to the buffer appends it to the suffix at the position.
  have longer : receiver.pos ≤ (receiver.buf ++ chunk).length := by
    rw [List.length_append]
    exact Nat.le_add_right_of_le receiver.within
  have behind : (receiver.buf ++ chunk).drop receiver.pos =
      receiver.buf.drop receiver.pos ++ chunk := List.drop_append_of_le_length receiver.within
  have drained := @drain_eq enabled most _ _ longer
  rw [behind] at drained
  have step : (receiver.read most enabled chunk).map view =
      (drain (receiver.buf ++ chunk) receiver.pos most enabled).map fun answer =>
        (receiver.records ++ answer.1, (receiver.buf ++ chunk).drop answer.2) := by
    unfold Receiver.read
    split <;> rename_i found <;> simp only [found] <;> rfl
  rw [step, drained]
  simp only [Framing.feed, Receiver.view]
  cases found : (recordFraming most enabled).items (receiver.buf.drop receiver.pos ++ chunk) with
  | error fault => rfl
  | ok answer =>
    obtain ⟨records, left⟩ := answer
    -- What is left of the suffix is the suffix of the buffer at the new position.
    have suffix := (Framing.items_suffix found).trans
      (behind ▸ List.drop_suffix receiver.pos (receiver.buf ++ chunk))
    simp only [map_ok, ← List.suffix_iff_eq_drop.mp suffix]

/-- Whatever the reads, a receiver ends up with the items of all its bytes. -/
theorem Receiver.foldlM_view (receiver : Receiver) (chunks : List Bytes) :
    (chunks.foldlM (Receiver.read most enabled) receiver).map view =
      chunks.foldlM (recordFraming most enabled).feed receiver.view := by
  -- The induction is on the reads, each of which is one step of the framing.
  induction chunks generalizing receiver with
  | nil => rfl
  | cons chunk chunks ih =>
    simp only [List.foldlM_cons]
    have step := @Receiver.read_view enabled most receiver chunk
    rw [← step]
    cases receiver.read most enabled chunk with
    | error fault => rfl
    | ok next => exact ih next

/-- More bytes change nothing about a record that is decoded or refused at a position. -/
theorem decodeRecord_more {buf : Bytes} {pos : Nat}
    {outcome : Except Failure (Option (List Frame) × Nat)}
    (decoded : decodeRecord buf pos most enabled = outcome)
    (decided : ∀ next, outcome ≠ .ok (none, next)) (more : Bytes) :
    decodeRecord (buf ++ more) pos most enabled = outcome := by
  -- What is decoded at a position is what is decoded from the suffix there.
  by_cases within : pos ≤ buf.length
  · -- The suffix at the position is decided, and gains bytes at its end only.
    rw [decodeRecord_drop, List.drop_append_of_le_length within,
      decodeRecord_append _ more, ← decodeRecord_drop, decoded]
    intro next waits
    rw [decodeRecord_drop, waits] at decoded
    exact decided (pos + next) decoded.symm
  · rw [decodeRecord, if_pos (by omega)] at decoded
    exact absurd decoded.symm (decided pos)

/--
Records are read independently of how the bytes are chunked.

A record decoded or refused stays so with more bytes, and no record is decoded exactly while bytes are awaited.
So a receiver that decodes as its bytes arrive ends up with the records of the whole pipe, or fails as the pipe does.
-/
theorem decodeRecord_chunking (buf : Bytes) (pos most : Nat) (enabled : Gates) :
    (∀ frames next, decodeRecord buf pos most enabled = .ok (some frames, next) →
      ∀ more, decodeRecord (buf ++ more) pos most enabled = .ok (some frames, next)) ∧
    (∀ fault, decodeRecord buf pos most enabled = .error fault →
      ∀ more, decodeRecord (buf ++ more) pos most enabled = .error fault) ∧
    (∀ next, decodeRecord buf pos most enabled = .ok (none, next) ↔
      next = pos ∧ Awaiting most (buf.drop pos)) ∧
    (∀ chunks : List Bytes,
      (chunks.foldlM (Receiver.read most enabled) .fresh).map Receiver.records =
      decodeStream chunks.flatten most enabled false) := by
  refine ⟨?_, ?_, ?_, ?_⟩
  · intro frames next decoded more
    -- An answer with frames is a decision, and so is a failure.
    have decided : ∀ last, (.ok (some frames, next) :
        Except Failure (Option (List Frame) × Nat)) ≠ .ok (none, last) := by
      intro last same
      cases same
    exact decodeRecord_more decoded decided more
  · intro fault refused more
    have decided : ∀ last, (.error fault :
        Except Failure (Option (List Frame) × Nat)) ≠ .ok (none, last) := by
      intro last same
      cases same
    exact decodeRecord_more refused decided more
  -- The condition is about the suffix, and the position is moved back.
  · intro next
    rw [decodeRecord_drop]
    simp only [map_eq_ok, Prod.exists, Prod.mk.injEq]
    constructor
    · intro waits
      obtain ⟨decoded, taken, found, rfl, rfl⟩ := waits
      obtain ⟨rfl, waits⟩ := decodeRecord_none_iff.mp found
      exact ⟨rfl, waits⟩
    · intro waits
      obtain ⟨rfl, waits⟩ := waits
      exact ⟨none, 0, decodeRecord_none_iff.mpr ⟨rfl, waits⟩, rfl, rfl⟩
  · intro chunks
    -- The receiver is the framing fed with the chunks, which gives the items of the whole.
    have whole := @Receiver.foldlM_view enabled most .fresh chunks
    have start : Receiver.fresh.view = ([], []) := rfl
    rw [start, Framing.foldlM_feed] at whole
    rw [decodeStream_eq, ← whole]
    cases chunks.foldlM (Receiver.read most enabled) .fresh <;> simp [atEnd, Receiver.view]

end Zmux
