import Zmux.Proofs.Records
import Zmux.Proofs.RoundTrip

/-! Pipes put together from records decode to the records, and longer pipes to more of them. -/

namespace Zmux

open Wire

variable {enabled : Gates} {most : Nat}

/-- A body behind its size is a whole record. -/
theorem recordFraming_next {width : Nat} {body : Bytes} {frames : List Frame}
    (legal : VarintLegal body.length width) (positive : 1 ≤ body.length)
    (small : body.length ≤ most) (decoded : decodeFrames body enabled = .ok frames) :
    (recordFraming most enabled).next (varintForm body.length width ++ body) =
      .ok (some (frames, (varintForm body.length width ++ body).length)) := by
  -- Nothing follows the body, so the record takes all the bytes.
  have record : decodeRecord (varintForm body.length width ++ body) 0 most enabled =
      .ok (some frames, width + body.length) :=
    decodeRecord_some_iff.mpr ⟨width, body, [], legal, by simp, positive, small, rfl, decoded⟩
  rw [recordFraming_some record, List.length_append, varintForm_length legal]

/--
Frames that make up a record within a limit, whose size is written in a given width or the shortest.

A frame that runs to the end of the record is the last one.
-/
structure Sendable (most : Nat) (frames : List Frame) (width : Option Nat) : Prop where
  formed : ∀ f ∈ frames, f.WellFormed
  last : ∀ f ∈ frames.dropLast, ¬ f.RunsToEnd
  sized : ∀ body, encodeFrames frames = .ok body → 1 ≤ body.length ∧ body.length ≤ most
  /-- The size has a form of its width, without which it cannot be written. -/
  legal : ∀ body, encodeFrames frames = .ok body →
    VarintLegal body.length (width.getD (varintShortest body.length))

/-- A record that may be sent is encoded as a whole record of its frames in canonical form. -/
theorem encodeRecord_whole {frames : List Frame} {width : Option Nat}
    (sendable : Sendable most frames width) : ∃ piece, encodeRecord frames width = .ok piece ∧
      (recordFraming most none).next piece = .ok (some (canonical frames, piece.length)) := by
  -- The body decodes to the canonical frames, and its size is written in front of it.
  obtain ⟨body, encoded, placed⟩ :=
    encodeFrames_canonical sendable.formed sendable.last
  have legal := sendable.legal body encoded
  obtain ⟨positive, small⟩ := sendable.sized body encoded
  have size : encodeVarint body.length width =
      .ok (varintForm body.length (width.getD (varintShortest body.length))) := by
    cases width with
    | none => exact encodeVarint_shortest (legal_shortest_iff.mp legal)
    | some width => exact encodeVarint_width legal
  refine ⟨_, ?_, recordFraming_next legal positive small (decodeFrames_eq_ok.mpr placed)⟩
  simp only [encodeRecord, encoded, size, ok_bind, pure_ok]

/-- Records that may be sent follow one another in the bytes they are encoded as. -/
theorem items_joinBytes {records : List (List Frame × Option Nat)}
    (sendable : ∀ record ∈ records, Sendable most record.1 record.2) :
    ∃ bytes, joinBytes (records.map fun record => encodeRecord record.1 record.2) = .ok bytes ∧
      (recordFraming most none).items bytes =
        .ok (records.map fun record => canonical record.1, []) := by
  -- The induction is on the records, each of which is a whole item of the stream.
  induction records with
  | nil => exact ⟨[], rfl, Framing.items_none (recordFraming most none).next_nil⟩
  | cons record records ih =>
    obtain ⟨piece, encoded, whole⟩ := encodeRecord_whole (sendable record List.mem_cons_self)
    obtain ⟨bytes, joined, read⟩ :=
      ih fun other member => sendable other (List.mem_cons_of_mem _ member)
    refine ⟨piece ++ bytes, ?_, ?_⟩
    · simp only [List.map_cons, joinBytes, encoded, joined, ok_bind, pure_ok]
    · rw [Framing.items_whole whole, read]
      rfl

/-- A pipe that ends with a whole record leaves nothing behind it. -/
theorem decodeStream_eq_ok {buf : Bytes} {records : List (List Frame)} :
    decodeStream buf most enabled = .ok records ↔
      (recordFraming most enabled).items buf = .ok (records, []) := by
  -- What is left behind the last record would be an error, so nothing is.
  rw [decodeStream_eq]
  simp only [bind_eq_ok, atEnd, Prod.exists]
  constructor
  · intro read
    obtain ⟨front, left, read, ended⟩ := read
    split at ended
    · cases ended
    · rename_i complete
      cases ended
      rw [read]
      by_cases empty : left = []
      · rw [empty]
      · exact absurd ⟨trivial, empty⟩ complete
  · intro read
    exact ⟨records, [], read, by simp⟩

/--
The records of a pipe come back from its bytes, and pipes can be put one behind the other.

A pipe of records that may be sent decodes to one list of frames for each of them in canonical form, whatever the widths of the sizes.
What follows a pipe that decodes is decoded as it is alone, and fails as it does alone.
-/
theorem decodeStream_records (most : Nat) :
    (∀ records : List (List Frame), (∀ frames ∈ records, Sendable most frames none) →
      (recordBytes records >>= fun bytes => decodeStream bytes most) =
        .ok (records.map canonical)) ∧
    (∀ records : List (List Frame × Option Nat),
      (∀ record ∈ records, Sendable most record.1 record.2) →
      (joinBytes (records.map fun record => encodeRecord record.1 record.2) >>= fun bytes =>
        decodeStream bytes most) = .ok (records.map fun record => canonical record.1)) ∧
    (∀ (front back : Bytes) (enabled : Gates) (first : List (List Frame)),
      decodeStream front most enabled = .ok first →
      decodeStream (front ++ back) most enabled =
        (decodeStream back most enabled).map fun second => first ++ second) := by
  refine ⟨?_, ?_, ?_⟩
  -- Records sent without a choice of width are first given one.
  · intro records sendable
    -- A size in the shortest form is one choice of the widths.
    have chosen : ∀ record ∈ records.map fun frames => (frames, (none : Option Nat)),
        Sendable most record.1 record.2 := by
      intro record member
      obtain ⟨frames, listed, rfl⟩ := List.mem_map.mp member
      exact sendable frames listed
    obtain ⟨bytes, joined, read⟩ := items_joinBytes chosen
    rw [List.map_map] at joined read
    have encoded : recordBytes records = .ok bytes := joined
    rw [encoded, ok_bind]
    exact decodeStream_eq_ok.mpr read
  · intro records sendable
    obtain ⟨bytes, joined, read⟩ := items_joinBytes sendable
    rw [joined, ok_bind]
    exact decodeStream_eq_ok.mpr read
  · intro front back enabled first read
    -- The front leaves nothing over, so the items of the back follow its own.
    rw [decodeStream_eq, Framing.items_complete (decodeStream_eq_ok.mp read), decodeStream_eq]
    cases (recordFraming most enabled).items back with
    | error fault => rfl
    | ok second =>
      simp only [ok_bind, map_ok, atEnd]
      split <;> rfl

end Zmux
