import Zmux.Wire.Bytes

/-! Streams of self-delimiting items, read whole or as their bytes arrive. -/

namespace Wire

/--
How the first item of a stream is recognized from the bytes received so far.

It is complete and occupies a number of bytes, or it needs more bytes, or the stream is refused.
A decision once taken does not depend on the bytes that follow.
-/
structure Framing (ε α : Type) where
  /-- The first item and the bytes it occupies, if the bytes at hand complete it. -/
  next : Bytes → Except ε (Option (α × Nat))
  /-- No bytes complete no item. -/
  next_nil : next [] = .ok none
  /-- An item occupies at least one byte and only bytes at hand. -/
  progress : ∀ {stream item count}, next stream = .ok (some (item, count)) →
    0 < count ∧ count ≤ stream.length
  /-- More bytes do not change a complete item. -/
  item_stable : ∀ {stream item}, next stream = .ok (some item) →
    ∀ more, next (stream ++ more) = .ok (some item)
  /-- More bytes do not mend a refused stream. -/
  error_stable : ∀ {stream fault}, next stream = .error fault →
    ∀ more, next (stream ++ more) = .error fault

namespace Framing

variable {ε α : Type} (framing : Framing ε α)

/-- Every complete item of a stream in order, and the bytes of an unfinished one. -/
def items (stream : Bytes) : Except ε (List α × Bytes) :=
  -- An unfinished item stops the loop, and its bytes are handed back for the next chunk.
  match found : framing.next stream with
  | .error fault => .error fault
  | .ok none => .ok ([], stream)
  | .ok (some (item, count)) =>
    have _bounds := framing.progress found
    (items (stream.drop count)).map fun rest => (item :: rest.1, rest.2)
termination_by stream.length

variable {framing}

/-- A stream whose first item fails fails with it. -/
theorem items_error {stream : Bytes} {fault : ε} (found : framing.next stream = .error fault) :
    framing.items stream = .error fault := by
  -- The first match of the loop already decides.
  unfold items
  split <;> simp_all

/-- A stream whose first item is not whole has no items. -/
theorem items_none {stream : Bytes} (found : framing.next stream = .ok none) :
    framing.items stream = .ok ([], stream) := by
  -- Nothing complete is at hand, so the whole stream is left over.
  unfold items
  split <;> simp_all

/-- The items of a stream are the first one, and those behind it. -/
theorem items_some {stream : Bytes} {item : α} {count : Nat}
    (found : framing.next stream = .ok (some (item, count))) :
    framing.items stream =
      (framing.items (stream.drop count)).map fun rest => (item :: rest.1, rest.2) := by
  -- Only the left side may be unfolded, since the right side runs the same loop on the rest.
  conv => lhs; unfold items
  split <;> simp_all

/-- A stream that begins with a whole item goes on with the items behind it. -/
theorem items_whole {piece : Bytes} {item : α}
    (whole : framing.next piece = .ok (some (item, piece.length))) (stream : Bytes) :
    framing.items (piece ++ stream) =
      (framing.items stream).map fun rest => (item :: rest.1, rest.2) := by
  -- The piece is recognized in the longer stream too, and dropping it leaves the stream.
  rw [items_some (framing.item_stable whole stream), List.drop_left]

/-- The bytes of an unfinished item are the last ones of the stream. -/
theorem items_suffix {stream left : Bytes} {front : List α}
    (read : framing.items stream = .ok (front, left)) : left <:+ stream := by
  -- The induction is on the length of the stream, which every complete item shortens.
  induction width : stream.length using Nat.strongRecOn generalizing stream front with
  | _ width ih =>
    subst width
    cases found : framing.next stream with
    | error fault =>
      rw [items_error found] at read
      cases read
    | ok answer =>
      cases answer with
      | none =>
        rw [items_none found] at read
        cases read
        exact List.suffix_refl _
      | some answer =>
        -- Behind a complete item the stream is shorter.
        obtain ⟨item, count⟩ := answer
        have bounds := framing.progress found
        rw [items_some found] at read
        obtain ⟨⟨others, rest⟩, further, same⟩ := map_eq_ok.mp read
        cases same
        have shorter : (stream.drop count).length < stream.length := by
          rw [List.length_drop]
          omega
        exact (ih _ shorter further rfl).trans (List.drop_suffix _ _)

/-- Reading a longer stream goes on from what reading a front of it has left. -/
theorem items_append (stream more : Bytes) :
    framing.items (stream ++ more) = framing.items stream >>= fun first =>
      (framing.items (first.2 ++ more)).map fun second => (first.1 ++ second.1, second.2) := by
  -- Each complete item of the front is complete in the longer stream too.
  induction width : stream.length using Nat.strongRecOn generalizing stream with
  | _ width ih =>
    subst width
    cases found : framing.next stream with
    | error fault => simp [items_error found, items_error (framing.error_stable found more)]
    | ok answer =>
      cases answer with
      | none =>
        simp only [items_none found, ok_bind, List.nil_append]
        cases framing.items (stream ++ more) <;> rfl
      | some answer =>
        obtain ⟨item, count⟩ := answer
        have bounds := framing.progress found
        have shorter := ih _ (by simp only [List.length_drop]; omega) (stream.drop count) rfl
        rw [items_some found, items_some (framing.item_stable found more),
          List.drop_append_of_le_length bounds.2, shorter]
        cases framing.items (stream.drop count) with
        | error fault => rfl
        | ok first =>
          simp only [ok_bind, map_ok]
          cases framing.items (first.2 ++ more) <;> rfl

/-- Take in one more chunk, keeping the items read so far and the bytes of an unfinished one. -/
def feed (framing : Framing ε α) (state : List α × Bytes) (chunk : Bytes) :
    Except ε (List α × Bytes) :=
  -- The bytes of the unfinished item come before those of the chunk.
  (framing.items (state.2 ++ chunk)).map fun found => (state.1 ++ found.1, found.2)

/-- Reading a stream in chunks is reading it whole, whatever the chunks are. -/
theorem items_chunks (stream : Bytes) (chunks : List Bytes) :
    (framing.items stream >>= fun state => chunks.foldlM framing.feed state) =
      framing.items (stream ++ chunks.flatten) := by
  -- Each chunk is appended to the stream already read, by the induction over the chunks.
  induction chunks generalizing stream with
  | nil => cases read : framing.items stream <;> simp [read]
  | cons chunk chunks ih =>
    rw [List.flatten_cons, ← List.append_assoc, ← ih, items_append stream chunk]
    cases framing.items stream with
    | error fault => rfl
    | ok state => rfl

/-- A stream read in chunks from its beginning gives the items of the whole. -/
theorem foldlM_feed (chunks : List Bytes) :
    chunks.foldlM framing.feed ([], []) = framing.items chunks.flatten := by
  -- Before the first chunk no item is complete and no byte is left over.
  have begun := @items_chunks _ _ framing [] chunks
  rwa [items_none framing.next_nil] at begun

/-- A stream that ends with a complete item is followed by the items of what comes after. -/
theorem items_complete {stream : Bytes} {front : List α}
    (read : framing.items stream = .ok (front, [])) (more : Bytes) :
    framing.items (stream ++ more) =
      (framing.items more).map fun second => (front ++ second.1, second.2) := by
  -- Nothing is left over, so reading goes on from what comes after.
  rw [items_append, read]
  rfl

end Framing

end Wire
