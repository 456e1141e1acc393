import Zmux.Codec.Preamble
import Zmux.Proofs.ParameterFaults

/-! A datagram keeps the stream, the context and the payload it was sent with. -/

namespace Zmux

open Wire

variable {data payload : Bytes} {stream context width narrow : Nat}

/-- The two byte strings that a prefix of a stream is made of. -/
def streamPrefix (stream context width narrow : Nat) : Bytes :=
  varintForm (stream + 1) width ++ varintForm context narrow

/-- Data that begins with a form of zero is a datagram of the session. -/
theorem decodeFlowPrefix_session (legal : VarintLegal 0 width) (payload : Bytes) :
    decodeFlowPrefix (varintForm 0 width ++ payload) = .ok (none, none, payload) := by
  have flow : decodeVarint (varintForm 0 width ++ payload) 0 PV = .ok (0, width, width) :=
    decodeVarint_begin.mpr ⟨legal, rfl, payload, rfl⟩
  -- The payload is everything behind the form.
  have behind : (varintForm 0 width ++ payload).drop width = payload := by
    rw [List.drop_append_of_le_length (varintForm_length legal).ge,
      List.drop_of_length_le (varintForm_length legal).le, List.nil_append]
  simp only [decodeFlowPrefix, flow, ok_bind, if_true, behind, pure_ok]

/-- Data that begins with the two forms of a stream is a datagram of that stream. -/
theorem decodeFlowPrefix_stream (legal : VarintLegal (stream + 1) width)
    (lawful : VarintLegal context narrow) (payload : Bytes) :
    decodeFlowPrefix (streamPrefix stream context width narrow ++ payload) =
      .ok (some stream, some context, payload) := by
  rw [streamPrefix, List.append_assoc]
  have wide := varintForm_length legal
  have flow : decodeVarint (varintForm (stream + 1) width ++
      (varintForm context narrow ++ payload)) 0 PV = .ok (stream + 1, width, width) :=
    decodeVarint_begin.mpr ⟨legal, rfl, _, rfl⟩
  -- The context is read behind the first form, and the payload follows the second.
  have ctx := decodeVarint_form lawful (varintForm (stream + 1) width) payload PV
  rw [wide] at ctx
  have behind : (varintForm (stream + 1) width ++ (varintForm context narrow ++ payload)).drop
      (width + narrow) = payload := by
    rw [← List.append_assoc]
    apply List.drop_left'
    rw [List.length_append, wide, varintForm_length lawful]
  simp only [decodeFlowPrefix, flow, ok_bind, Nat.succ_ne_zero, if_false, ctx, behind, pure_ok,
    Nat.add_sub_cancel]

/-- What is decoded is a datagram of the session or of a stream, behind a prefix that says so. -/
theorem decodeFlowPrefix_cases {answer : Option Nat × Option Nat × Bytes}
    (decoded : decodeFlowPrefix data = .ok answer) :
    (∃ width payload, answer = (none, none, payload) ∧ VarintLegal 0 width ∧
      data = varintForm 0 width ++ payload) ∨
    ∃ stream context width narrow payload, answer = (some stream, some context, payload) ∧
      VarintLegal (stream + 1) width ∧ VarintLegal context narrow ∧
      data = streamPrefix stream context width narrow ++ payload := by
  simp only [decodeFlowPrefix, bind_eq_ok, Prod.exists, decodeVarint_here, List.drop_zero,
    Nat.zero_add] at decoded
  obtain ⟨flow, pos, width, ⟨legal, rfl, front⟩, decoded⟩ := decoded
  -- The first integer decides whether there is a second.
  split at decoded
  · rename_i zero
    subst zero
    simp only [pure_ok, Except.ok.injEq] at decoded
    exact .inl ⟨pos, data.drop pos, decoded.symm, legal, front⟩
  · rename_i some
    simp only [bind_eq_ok, Prod.exists, decodeVarint_here, pure_ok, Except.ok.injEq] at decoded
    obtain ⟨context, next, narrow, ⟨lawful, rfl, back⟩, rfl⟩ := decoded
    have shifted : flow - 1 + 1 = flow := Nat.succ_pred_eq_of_ne_zero some
    refine .inr ⟨flow - 1, context, pos, narrow, _, rfl, ?_, lawful, ?_⟩
    · rwa [shifted]
    · rw [streamPrefix, shifted, List.append_assoc, ← back, ← front]

/-- The prefix of the session is a single zero byte. -/
theorem encodeFlowPrefix_none (context : Nat) :
    encodeFlowPrefix none context = .ok (varintForm 0 (varintShortest 0)) :=
  encodeVarint_shortest (Nat.zero_le _)

/-- The prefix of a stream consists of the two shortest forms. -/
theorem encodeFlowPrefix_some (within : stream + 1 ≤ maxVarint) (fits : context ≤ maxVarint) :
    encodeFlowPrefix (some stream) context = .ok (streamPrefix stream context
      (varintShortest (stream + 1)) (varintShortest context)) := by
  simp only [encodeFlowPrefix, encodeVarint_shortest within, encodeVarint_shortest fits, ok_bind,
    pure_ok, streamPrefix]

/-- A number of 62 bits whose bit 1 is clear is not the largest one, nor the one below it. -/
theorem bidirectional_fits (below : stream < 2 ^ 62) (bidirectional : stream &&& 2 = 0) :
    stream + 1 ≤ maxVarint := by
  have largest : maxVarint = 2 ^ 62 - 1 := rfl
  -- All bits of the largest number are set.
  have other : stream ≠ 2 ^ 62 - 1 := by
    rintro rfl
    exact absurd bidirectional (by decide)
  omega

/-- A datagram of a stream is never one of the session, whatever their payloads are. -/
theorem prefixes_differ (legal : VarintLegal 0 width) {wide : Nat}
    (lawful : VarintLegal (stream + 1) wide) (context : Nat) (first second : Bytes) :
    varintForm 0 width ++ first ≠ streamPrefix stream context wide narrow ++ second := by
  intro same
  rw [streamPrefix, List.append_assoc] at same
  -- Equal bytes begin with equal integers, and a stream's is not zero.
  exact absurd (varintFormat.decodable legal lawful same).1 (Nat.succ_ne_zero stream).symm

/-- The two integers of a prefix are all that can be missing from a datagram. -/
theorem decodeFlowPrefix_faults (data : Bytes) :
    Faults (decodeFlowPrefix data) (Failure.HasCode PV) := by
  refine (decodeVarint_faults _ _ _).bind ?_
  intro answer _
  obtain ⟨flow, pos, width⟩ := answer
  -- Behind the first integer there is a second one only for a stream.
  by_cases zero : flow = 0
  · simp only [zero, if_true]
    exact faults_ok _
  · simp only [zero, if_false]
    refine (decodeVarint_faults _ _ _).bind ?_
    intro _ _
    exact faults_ok _

/-- Writing again what was decoded takes no more bytes, and decodes as the same. -/
theorem flowPrefix_normalises {stream context : Option Nat}
    (decoded : decodeFlowPrefix data = .ok (stream, context, payload)) :
    ∃ front, encodeFlowPrefix stream (context.getD 0) = .ok front ∧
      (front ++ payload).length ≤ data.length ∧
      decodeFlowPrefix (front ++ payload) = .ok (stream, context, payload) := by
  rcases decodeFlowPrefix_cases decoded with session | ofStream
  · obtain ⟨width, payload, same, legal, rfl⟩ := session
    cases same
    have least : VarintLegal 0 (varintShortest 0) := varintFormat.legal_shortest legal
    refine ⟨_, encodeFlowPrefix_none 0, ?_, decodeFlowPrefix_session least payload⟩
    -- No form of zero is shorter than the one that is written.
    have shorter : varintShortest 0 ≤ width := varintFormat.shortest_le legal
    rw [List.length_append, List.length_append, varintForm_length least, varintForm_length legal]
    omega
  · obtain ⟨stream, context, width, narrow, payload, same, legal, lawful, rfl⟩ := ofStream
    cases same
    have least : VarintLegal (stream + 1) (varintShortest (stream + 1)) :=
      varintFormat.legal_shortest legal
    have fewest : VarintLegal context (varintShortest context) :=
      varintFormat.legal_shortest lawful
    refine ⟨_, encodeFlowPrefix_some (legal_shortest_iff.mp least) (legal_shortest_iff.mp fewest),
      ?_, decodeFlowPrefix_stream least fewest payload⟩
    -- Each of the two integers is written in its shortest form.
    have shorter : varintShortest (stream + 1) ≤ width := varintFormat.shortest_le legal
    have narrower : varintShortest context ≤ narrow := varintFormat.shortest_le lawful
    simp only [streamPrefix, Option.getD_some, List.length_append, varintForm_length least,
      varintForm_length fewest, varintForm_length legal, varintForm_length lawful]
    omega

/-- Datagrams keep their streams, their contexts and their payloads, and the session's stay apart. -/
theorem flowPrefix_roundTrip :
    (∀ (stream context : Nat) (payload : Bytes), stream < 2 ^ 62 → stream &&& 2 = 0 →
      context ≤ maxVarint → stream + 1 ≤ maxVarint ∧
      ∃ front, encodeFlowPrefix (some stream) context = .ok front ∧
        decodeFlowPrefix (front ++ payload) = .ok (some stream, some context, payload)) ∧
    (∀ payload : Bytes, ∃ front, encodeFlowPrefix none = .ok front ∧
      decodeFlowPrefix (front ++ payload) = .ok (none, none, payload)) ∧
    (∀ (stream context : Nat) (session ofStream first second : Bytes),
      encodeFlowPrefix none = .ok session → encodeFlowPrefix (some stream) context = .ok ofStream →
      session ++ first ≠ ofStream ++ second) ∧
    ∀ data : Bytes, (∃ reason, decodeFlowPrefix data = .error (.decodeError PV reason)) ∨
      ∃ stream context payload, decodeFlowPrefix data = .ok (stream, context, payload) ∧
        stream.isSome = context.isSome ∧
        ∃ front, encodeFlowPrefix stream (context.getD 0) = .ok front ∧
          (front ++ payload).length ≤ data.length ∧
          decodeFlowPrefix (front ++ payload) = .ok (stream, context, payload) := by
  have zero : VarintLegal 0 (varintShortest 0) := legal_shortest_iff.mpr (Nat.zero_le _)
  refine ⟨?_, ?_, ?_, ?_⟩
  · intro stream context payload below bidirectional fits
    have within := bidirectional_fits below bidirectional
    exact ⟨within, _, encodeFlowPrefix_some within fits, decodeFlowPrefix_stream
      (legal_shortest_iff.mpr within) (legal_shortest_iff.mpr fits) payload⟩
  · intro payload
    exact ⟨_, encodeFlowPrefix_none 0, decodeFlowPrefix_session zero payload⟩
  · intro stream context session ofStream first second sent written
    -- A prefix that was written consists of forms, whatever the numbers in it are.
    simp only [encodeFlowPrefix, bind_eq_ok, encodeVarint_eq_ok, pure_ok, Except.ok.injEq]
      at written
    obtain ⟨_, ⟨within, rfl⟩, _, ⟨-, rfl⟩, rfl⟩ := written
    rw [encodeFlowPrefix_none, Except.ok.injEq] at sent
    rw [← sent]
    exact prefixes_differ zero (legal_shortest_iff.mpr within) context first second
  · intro data
    cases decoded : decodeFlowPrefix data with
    | error fault =>
      obtain ⟨reason, rfl⟩ := decodeFlowPrefix_faults data fault decoded
      exact .inl ⟨reason, rfl⟩
    | ok answer =>
      obtain ⟨stream, context, payload⟩ := answer
      refine .inr ⟨stream, context, payload, rfl, ?_, flowPrefix_normalises decoded⟩
      -- The stream and the context are present together.
      rcases decodeFlowPrefix_cases decoded with ⟨_, _, same, -⟩ | ⟨_, _, _, _, _, same, -⟩ <;>
        cases same <;> rfl

end Zmux
