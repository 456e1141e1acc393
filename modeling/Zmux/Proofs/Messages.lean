import Zmux.Proofs.RecordStreams

/-! Messages of a message-framed carrier count and decode as the records of a byte stream. -/

namespace Zmux

open Wire

variable {enabled : Gates} {most : Nat}

/-- A message as a byte stream carries it: its length, then the message. -/
def streamForm (msg : Bytes) : Except Failure Bytes := do
  -- The length is written as the size of a record is, in its shortest form.
  let size ← encodeVarint msg.length
  return size ++ msg

/-- The bytes that messages count for in the positions of a pipe, all together. -/
def messagePositions : List Bytes → Except Failure Nat
  | [] => .ok 0
  | msg :: messages => do
    let first ← messagePosition msg
    let others ← messagePositions messages
    return first + others

/-- A message counts for exactly the bytes of its byte-stream form. -/
theorem messagePosition_eq (msg : Bytes) :
    messagePosition msg = (streamForm msg).map List.length := by
  -- Both add the bytes of the length to those of the message.
  unfold messagePosition streamForm
  cases encodeVarint msg.length with
  | error fault => rfl
  | ok size => simp only [ok_bind, pure_ok, map_ok, List.length_append, Nat.add_comm]

/-- Messages count together for exactly the bytes of their byte-stream forms. -/
theorem messagePositions_eq (messages : List Bytes) :
    messagePositions messages = (joinBytes (messages.map streamForm)).map List.length := by
  -- The induction is on the messages, whose forms follow one another.
  induction messages with
  | nil => rfl
  | cons msg messages ih =>
    rw [messagePositions, List.map_cons, joinBytes, messagePosition_eq, ih]
    cases streamForm msg with
    | error fault => rfl
    | ok piece =>
      cases joinBytes (messages.map streamForm) with
      | error fault => rfl
      | ok stream => simp only [map_ok, ok_bind, pure_ok, List.length_append]

/-- The byte-stream form of a message exists exactly when its length is a variable-length integer. -/
theorem streamForm_eq_ok {msg piece : Bytes} : streamForm msg = .ok piece ↔
    msg.length ≤ maxVarint ∧ piece = varintForm msg.length (varintShortest msg.length) ++ msg := by
  -- Only the length can fail to be written.
  simp only [streamForm, bind_eq_ok, encodeVarint_eq_ok, pure_ok, Except.ok.injEq]
  constructor
  · intro formed
    obtain ⟨_, ⟨small, rfl⟩, rfl⟩ := formed
    exact ⟨small, rfl⟩
  · intro formed
    obtain ⟨small, rfl⟩ := formed
    exact ⟨_, ⟨small, rfl⟩, rfl⟩

/-- The record that a message begins a byte stream with is decoded as the message is. -/
theorem decodeRecord_message {msg piece : Bytes} (formed : streamForm msg = .ok piece)
    (nonempty : msg ≠ []) (rest : Bytes) :
    Agree (decodeRecord (piece ++ rest) 0 most enabled)
      ((decodeMessage msg most enabled).map fun frames => (some frames, piece.length)) := by
  -- The record is complete, so what it holds decides, and that is the message.
  obtain ⟨small, rfl⟩ := streamForm_eq_ok.mp formed
  have legal := legal_shortest_iff.mpr small
  have wide := varintForm_length legal
  have some : ¬ msg.length = 0 := by rwa [List.length_eq_zero_iff]
  have whole : ¬ (msg ++ rest).length < msg.length := by simp
  rw [List.append_assoc, decodeRecord_sized legal, decodeMessage, if_neg some]
  by_cases large : msg.length > most
  · -- Both are refused with the same code, each in its own words.
    simp only [raiseIf, if_neg some, if_pos large, ok_bind, error_bind, map_error]
    rfl
  · have fits : (varintForm msg.length (varintShortest msg.length) ++ msg).length =
        varintShortest msg.length + msg.length := by rw [List.length_append, wide]
    simp only [raiseIf, if_neg some, if_neg large, ok_bind, if_neg whole, List.take_left, fits]
    exact Agree.refl _

/-- The items of a byte stream of messages are the messages decoded one by one. -/
theorem items_messages {messages : List Bytes} {stream : Bytes}
    (nonempty : ∀ msg ∈ messages, msg ≠ [])
    (formed : joinBytes (messages.map streamForm) = .ok stream) :
    Agree ((recordFraming most enabled).items stream)
      ((messages.mapM fun msg => decodeMessage msg most enabled).map
        fun records => (records, [])) := by
  -- The induction is on the messages, each of which is a whole item of the stream or refused.
  induction messages generalizing stream with
  | nil =>
    cases formed
    rw [Framing.items_none (recordFraming most enabled).next_nil]
    rfl
  | cons msg messages ih =>
    simp only [List.map_cons, joinBytes, bind_eq_ok, pure_ok, Except.ok.injEq] at formed
    obtain ⟨piece, first, rest, others, rfl⟩ := formed
    have agreed := @decodeRecord_message enabled most _ _ first
      (nonempty msg List.mem_cons_self) []
    have further := ih (fun other member => nonempty other (List.mem_cons_of_mem _ member)) others
    rw [List.append_nil] at agreed
    rw [List.mapM_cons]
    rcases agreed.outcomes with ⟨fault, other, read, refused, near⟩ | ⟨answer, read, answered⟩
    · -- The stream is refused where the message is.
      have next := recordFraming_error read
      rw [Framing.items_error ((recordFraming most enabled).error_stable next rest),
        map_eq_error.mp refused]
      exact near
    · obtain ⟨frames, decoded, rfl⟩ := map_eq_ok.mp answered
      rw [Framing.items_whole (recordFraming_some read), decoded, ok_bind]
      -- Both put the frames of this message in front of those of the others.
      have longer := further.map fun found => (frames :: found.1, found.2)
      cases later : messages.mapM fun msg => decodeMessage msg most enabled with
      | error fault =>
        rw [later] at longer
        exact longer
      | ok records =>
        rw [later] at longer
        exact longer

/-- A message behind others is decoded at the position that they count for together. -/
theorem decodeRecord_at {front back : Bytes} {msg piece : Bytes}
    (formed : streamForm msg = .ok piece) (nonempty : msg ≠ []) :
    Agree (decodeRecord (front ++ (piece ++ back)) front.length most enabled)
      ((decodeMessage msg most enabled).map
        fun frames => (some frames, front.length + piece.length)) := by
  -- The suffix there begins with the message's own record, and the position moves with it.
  have here := @decodeRecord_message enabled most _ _ formed nonempty back
  have moved := here.map fun answer => (answer.1, front.length + answer.2)
  rw [decodeRecord_drop, List.drop_left]
  cases decoded : decodeMessage msg most enabled with
  | error fault =>
    rw [decoded] at moved
    exact moved
  | ok frames =>
    rw [decoded] at moved
    exact moved

/-- Byte strings put one after the other are put together from the two parts of their list. -/
theorem joinBytes_append {front back : List (Except Failure Bytes)} {bytes : Bytes} :
    joinBytes (front ++ back) = .ok bytes ↔ ∃ first second, joinBytes front = .ok first ∧
      joinBytes back = .ok second ∧ bytes = first ++ second := by
  -- The induction is on the front, whose pieces come first.
  induction front generalizing bytes with
  | nil => simp [joinBytes, eq_comm]
  | cons head front ih =>
    simp only [List.cons_append, joinBytes, bind_eq_ok, pure_ok, Except.ok.injEq, ih]
    constructor
    · intro joined
      obtain ⟨piece, found, _, ⟨first, second, begun, ended, rfl⟩, rfl⟩ := joined
      exact ⟨_, second, ⟨piece, found, first, begun, rfl⟩, ended, (List.append_assoc ..).symm⟩
    · intro joined
      obtain ⟨_, second, ⟨piece, found, first, begun, rfl⟩, ended, rfl⟩ := joined
      exact ⟨piece, found, _, ⟨first, second, begun, ended, rfl⟩, (List.append_assoc ..).symm⟩

/--
Messages and the byte stream of their records decode alike and count alike.

The stream gives the frames of each message, or fails with the code that the first refused message fails with.
A record begins where the positions of the messages before it end, and takes the position of its own message.
-/
theorem decodeStream_messages (most : Nat) (enabled : Gates) :
    (∀ (messages : List Bytes) (stream : Bytes), (∀ msg ∈ messages, msg ≠ []) →
      joinBytes (messages.map streamForm) = .ok stream →
      (∀ requireComplete, Agree (decodeStream stream most enabled requireComplete)
        (messages.mapM fun msg => decodeMessage msg most enabled)) ∧
      (∀ front msg back, messages = front ++ msg :: back → ∃ pos count,
        messagePositions front = .ok pos ∧ messagePosition msg = .ok count ∧
        Agree (decodeRecord stream pos most enabled)
          ((decodeMessage msg most enabled).map fun frames => (some frames, pos + count))) ∧
      messagePositions messages = .ok stream.length) ∧
    (∀ frames, (encodeFrames frames >>= messagePosition) =
      (encodeRecord frames).map List.length) := by
  constructor
  · intro messages stream nonempty formed
    refine ⟨?_, ?_, by rw [messagePositions_eq, formed, map_ok]⟩
    · intro requireComplete
      -- Nothing is left behind the last message, so the end of the stream is no failure.
      have agreed := (@items_messages enabled most _ _ nonempty formed).bind (atEnd requireComplete)
      rw [decodeStream_eq]
      cases decoded : messages.mapM fun msg => decodeMessage msg most enabled with
      | error fault =>
        rw [decoded] at agreed
        exact agreed
      | ok records =>
        rw [decoded] at agreed
        simpa [atEnd] using agreed
    -- The stream is split in front of the message and behind it.
    · intro front msg back same
      subst same
      rw [List.map_append, List.map_cons] at formed
      obtain ⟨first, second, begun, ended, rfl⟩ := joinBytes_append.mp formed
      simp only [joinBytes, bind_eq_ok, pure_ok, Except.ok.injEq] at ended
      obtain ⟨piece, here, last, -, rfl⟩ := ended
      refine ⟨first.length, piece.length, ?_, ?_, decodeRecord_at here (nonempty msg (by simp))⟩
      · rw [messagePositions_eq, begun, map_ok]
      · rw [messagePosition_eq, here, map_ok]
  · intro frames
    -- The size of a record is the length that the position counts for.
    unfold encodeRecord messagePosition
    cases encodeFrames frames with
    | error fault => rfl
    | ok body =>
      simp only [ok_bind]
      cases encodeVarint body.length with
      | error fault => rfl
      | ok size => simp only [ok_bind, pure_ok, map_ok, List.length_append, Nat.add_comm]

end Zmux
