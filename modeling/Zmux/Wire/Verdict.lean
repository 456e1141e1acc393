import Zmux.Wire.Bytes

/-! Verdicts on a stream that are reached from its first bytes and stay. -/

namespace Wire

/--
A verdict on a stream, given from the bytes received so far.

There is none while too few bytes have arrived.
A verdict once given does not depend on the bytes that follow.
-/
structure Verdict (ω : Type) where
  /-- What the bytes at hand show, if they show anything yet. -/
  given : Bytes → Option ω
  /-- The number of bytes that always suffice. -/
  bound : Nat
  /-- More bytes do not change a verdict. -/
  stable : ∀ {front answer}, given front = some answer → ∀ more, given (front ++ more) = some answer
  /-- So many bytes show something. -/
  reached : ∀ {front}, bound ≤ front.length → ∃ answer, given front = some answer

namespace Verdict

variable {ω : Type} {verdict : Verdict ω}

/-- The verdict on a stream is the one on its first bytes. -/
theorem given_take {stream : Bytes} (long : verdict.bound ≤ stream.length) :
    verdict.given (stream.take verdict.bound) = verdict.given stream := by
  -- The front is long enough for a verdict, which the rest of the stream does not change.
  have front : (stream.take verdict.bound).length = verdict.bound := List.length_take_of_le long
  obtain ⟨answer, early⟩ := verdict.reached (Nat.le_of_eq front.symm)
  have late := verdict.stable early (stream.drop verdict.bound)
  rw [List.take_append_drop] at late
  rw [early, late]

/-- Take in one more chunk, and ask for a verdict unless there is one already. -/
def hear (verdict : Verdict ω) (state : Bytes × Option ω) (chunk : Bytes) : Bytes × Option ω :=
  match state.2 with
  -- A listener that has its verdict does not ask again.
  | some answer => (state.1 ++ chunk, some answer)
  | none => (state.1 ++ chunk, verdict.given (state.1 ++ chunk))

/-- The verdict of a listener that is fed a stream in chunks. -/
def listen (verdict : Verdict ω) (chunks : List Bytes) : Option ω :=
  (chunks.foldl verdict.hear ([], verdict.given [])).2

/-- A chunk keeps the verdict of a listener that of the bytes it has heard. -/
theorem hear_given (heard chunk : Bytes) : verdict.hear (heard, verdict.given heard) chunk =
    (heard ++ chunk, verdict.given (heard ++ chunk)) := by
  -- A verdict that is there stays, and otherwise the bytes heard are asked again.
  unfold hear
  split <;> rename_i found
  · rw [verdict.stable found chunk]
  · rfl

/-- Whatever the chunks are, the verdict of a listener is that of the bytes it has heard. -/
theorem foldl_hear (heard : Bytes) (chunks : List Bytes) :
    chunks.foldl verdict.hear (heard, verdict.given heard) =
      (heard ++ chunks.flatten, verdict.given (heard ++ chunks.flatten)) := by
  -- Each chunk is appended to the bytes heard, by the induction over the chunks.
  induction chunks generalizing heard with
  | nil => simp
  | cons chunk chunks ih =>
    rw [List.foldl_cons, hear_given, ih, List.flatten_cons, List.append_assoc]

/-- A stream heard in chunks gets the verdict on all its bytes at once. -/
theorem listen_eq (chunks : List Bytes) : verdict.listen chunks = verdict.given chunks.flatten := by
  rw [listen, foldl_hear, List.nil_append]

/-- A listener keeps its verdict while it is fed more chunks. -/
theorem listen_stable {early : List Bytes} {answer : ω} (heard : verdict.listen early = some answer)
    (later : List Bytes) : verdict.listen (early ++ later) = some answer := by
  -- The chunks to come are bytes behind those that were enough.
  rw [listen_eq] at heard
  rw [listen_eq, List.flatten_append]
  exact verdict.stable heard _

end Verdict

end Wire
