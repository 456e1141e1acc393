import Zmux.Proofs.FrameFaults
import Zmux.Proofs.RoundTrip

/-! A frame says itself where it ends, so nothing behind it changes how it is read. -/

namespace Zmux

open Wire

variable {enabled : Gates} {limit : Option Nat} {f : Frame} {fs : List Frame} {name : FrameName}
  {code : Nat} {window left : Bytes}

/-- Whether the data of a frame runs to the end of its record is said by its type. -/
theorem runsToEnd_iff (named : f.name = some name) (flagged : f.Flagged code) : f.RunsToEnd ↔
    name = .stream ∧ hasBit code lenBit = false ∨ name = .datagram ∧ code ≠ 0x31 := by
  -- Only streams and datagrams have data that may have no length.
  cases f with
  | raw | repeated | padding => cases named
  | stream =>
    cases named
    rcases flagged with ⟨-, -, rfl⟩
    simp [Frame.RunsToEnd]
  | datagram =>
    cases named
    have lengths := flagged
    subst lengths
    simp [Frame.RunsToEnd]
  | _ =>
    cases named
    simp [Frame.RunsToEnd]

/-- A frame that says where it ends is placed in the same way whatever follows it. -/
theorem FrameAt.append (placed : FrameAt enabled limit f window left) (bounded : ¬ f.RunsToEnd)
    (other : f.name = none → left ≠ []) (more : Bytes) :
    FrameAt enabled limit f (window ++ more) (left ++ more) := by
  -- Only the byte behind padding and the end of the record look beyond the frame.
  refine ⟨placed.decoded, placed.spelled.append more, ?_, ?_, placed.allowed, ?_⟩
  · -- The byte that ends a run of padding is there already.
    intro padding
    rw [List.head?_append_of_ne_nil _ (other padding)]
    exact placed.maximal padding
  · intro runs
    exact absurd runs bounded
  · intro datagram most within
    have span := placed.sized datagram most within
    rw [List.length_append, List.length_append]
    omega

/-- Behind the same type, fields that are whole cannot be read from less. -/
theorem decodeFields_whole {rest tail : Bytes} (bounded : ¬ f.RunsToEnd)
    (read : (decodeFields name code).on (rest ++ tail) = .ok (f, [])) (some : tail ≠ []) :
    ∀ answer, (decodeFields name code).on rest ≠ .ok answer := by
  -- Fields read from less would be read from more as well, and leave bytes over.
  intro answer early
  rcases answer with ⟨g, left⟩
  obtain ⟨named, flagged, -⟩ := decodeFields_sound read
  obtain ⟨other, flags, decoded, starts, -⟩ := decodeFields_sound early
  -- The same type has both frames say where they end.
  have ends : ¬ g.RunsToEnd := by
    rw [runsToEnd_iff other flags, ← runsToEnd_iff named flagged]
    exact bounded
  have again := decodeFields_complete other flags decoded (starts.append tail)
    (fun runs => absurd runs ends)
  rw [read] at again
  simp only [Except.ok.injEq, Prod.mk.injEq] at again
  have ended := List.append_eq_nil_iff.mp again.2.symm
  exact some ended.2

/-- Fields that are cut short are a frame encoding error. -/
theorem decodeFields_cut {rest tail : Bytes} {fault : Failure} (permitted : name ∉ prohibitedNames)
    (typed : name ≠ .padding)
    (read : (decodeFields name code).on (rest ++ tail) = .ok (f, left))
    (failed : (decodeFields name code).on rest = .error fault) : fault.HasCode FE := by
  -- Only a block of transport parameters has failures with another code.
  by_cases block : name = .qxTransportParameters
  · subst block
    have fields : decodeFields .qxTransportParameters code = readTransportParameters := rfl
    rw [fields] at read failed
    rcases readTransportParameters_faults failed with listed | ⟨bytes, behind, counted, refused⟩
    · rcases listed with ⟨reason, -, rfl⟩
      exact hasCode_decodeError
    · -- A block that is there as a whole is the one that has been decoded.
      obtain ⟨params, -, decoded, starts⟩ := readTransportParameters_on.mp read
      obtain ⟨inner, last, ⟨width, legal, split⟩, spelled, -⟩ := starts_sized_begins.mp starts
      rcases counted with ⟨narrow, lawful, rfl⟩
      rw [List.append_assoc] at split
      obtain ⟨count, -, same⟩ := varintFormat.decodable lawful legal split
      rw [List.append_assoc] at same
      obtain ⟨rfl, -⟩ := List.append_inj same count
      rw [decodeTps_eq_ok.mpr ⟨decoded, spelled⟩] at refused
      cases refused
  · obtain ⟨reason, -, rfl⟩ := decodeFields_faults permitted typed block rest fault failed
    exact hasCode_decodeError

/-- A frame with a type is a type in its shortest form, whose fields are read behind it. -/
theorem FrameAt.typed_read (placed : FrameAt enabled limit f window left)
    (named : f.name = some name) : ∃ rest row, f.code ≠ 0 ∧
      VarintLegal f.code (varintShortest f.code) ∧
      window = varintForm f.code (varintShortest f.code) ++ rest ∧
      checkType f.code enabled = .ok row ∧
      (decodeFields row.name f.code).on rest = .ok (f, left) := by
  -- The frame is spelled behind its type, and its fields are read there.
  obtain ⟨rest, same, starts⟩ := (typed_layout_iff named).mp placed.spelled
  obtain ⟨-, flagged, nonzero, legal, row, found, rfl, kind⟩ := placed.decoded.typed named
  exact ⟨rest, row, nonzero, legal, same,
    checkType_eq_ok.mpr ⟨found, kind, placed.allowed row found⟩,
    decodeFields_complete named flagged placed.decoded starts placed.ended⟩

/-- A frame that says where it ends cannot be decoded from a front of its bytes. -/
theorem decodeFrame_cut {front tail : Bytes}
    (placed : FrameAt enabled limit f (front ++ tail) []) (named : f.name = some name)
    (bounded : ¬ f.RunsToEnd) (some : tail ≠ []) :
    ∃ reason, decodeFrame front 0 front.length enabled limit = .error (.decodeError FE reason) := by
  -- The type may be cut short, or the fields behind it.
  obtain ⟨rest, row, nonzero, legal, split, checked, read⟩ := placed.typed_read named
  cases typed : decodeVarint front 0 FE with
  | error fault =>
    -- The type itself is cut short.
    rw [decodeFrame_untyped typed, (decodeVarint_eq_error.mp typed).1]
    exact ⟨_, rfl⟩
  | ok answer =>
    rcases answer with ⟨code, _, width⟩
    obtain ⟨lawful, -, behind, rfl⟩ := decodeVarint_begin.mp typed
    -- The type is that of the whole frame, so it is in its shortest form and allowed.
    rw [List.append_assoc] at split
    obtain ⟨rfl, rfl, rfl⟩ := varintFormat.decodable lawful legal split
    have early := decodeFields_whole bounded read some
    rw [decodeFrame_typed legal nonzero, checked, ok_bind]
    cases cut : (decodeFields row.name f.code).on behind with
    | ok answer => exact absurd cut (early answer)
    | error fault =>
      obtain ⟨found, allowed, -⟩ := checkType_eq_ok.mp checked
      obtain ⟨permitted, fields⟩ := row_fields found allowed nonzero
      obtain ⟨reason, rfl⟩ := decodeFields_cut permitted fields read cut
      exact ⟨reason, rfl⟩

/-- Frames behind others, where a run of padding across the seam is one frame. -/
def seam : List Frame → List Frame → List Frame
  | [], back => back
  | [.padding count], back => pushPadding (count.getD 1) back
  | f :: front, back => f :: seam front back

/-- Nothing is merged behind a frame that has a name. -/
theorem seam_named (named : f.name = some name) (front back : List Frame) :
    seam (f :: front) back = f :: seam front back := by
  -- Only padding is joined with what follows it.
  cases f with
  | raw | repeated | padding => cases named
  | _ => cases front <;> rfl

/-- Zero bytes in front of a payload are padding in front of its frames, or fail as it does. -/
theorem decodeFrames_zeros {count : Nat} (positive : 0 < count) (window : Bytes) :
    decodeFrames (List.replicate count 0 ++ window) enabled limit =
      (decodeFrames window enabled limit).map (pushPadding count) := by
  -- Padding merges with what comes first, if that is padding.
  cases decoded : decodeFrames window enabled limit with
  | ok fs => exact decodeFrames_eq_ok.mpr ((decodeFrames_eq_ok.mp decoded).pushPadding count)
  | error fault =>
    -- Both payloads begin with padding up to the same byte, or only the longer one does.
    obtain ⟨split, other⟩ := zeros_split window
    have run : ∀ {more : Nat}, 0 < more → decodeFrames
        (List.replicate more 0 ++ window.drop (zeros window)) enabled limit =
          (decodeFrames (window.drop (zeros window)) enabled limit).map
            (.padding (some more) :: ·) := by
      intro more some
      have first := @FrameAt.padding enabled limit _ more some other
      have begun := first.decode
      have nonempty : List.replicate more 0 ++ window.drop (zeros window) ≠ [] := by
        intro empty
        have shorter := first.length_lt
        rw [empty] at shorter
        exact Nat.not_lt_zero _ shorter
      rw [decodeFrames_step nonempty, begun, ok_bind]
      simp only [first.left_eq]
      cases decodeFrames (window.drop (zeros window)) enabled limit <;> rfl
    have rest : decodeFrames (window.drop (zeros window)) enabled limit = .error fault := by
      by_cases none : zeros window = 0
      · rw [none, List.drop_zero]
        exact decoded
      · have here := run (Nat.pos_of_ne_zero none)
        rw [← split, decoded] at here
        exact map_eq_error.mp here.symm
    have longer := run (show 0 < count + zeros window by omega)
    rw [← List.replicate_append_replicate, List.append_assoc, ← split, rest] at longer
    rw [longer]
    rfl

/-- Behind frames that say where they end, a payload is decoded as it is on its own. -/
theorem FramesAt.decode_append (placed : FramesAt enabled limit fs window)
    (bounded : ∀ f ∈ fs.getLast?, ¬ f.RunsToEnd) (more : Bytes) :
    decodeFrames (window ++ more) enabled limit =
      (decodeFrames more enabled limit).map (seam fs) := by
  -- The induction is on the frames in front, the last of which may be padding that goes on.
  induction placed with
  | nil =>
    rw [List.nil_append]
    cases decodeFrames more enabled limit <;> rfl
  | @cons f fs window left first others ih =>
    have shorter := first.length_lt
    have others_bounded : ∀ g ∈ fs.getLast?, ¬ g.RunsToEnd := by
      intro g last
      apply bounded
      cases fs with
      | nil => cases last
      | cons next fs => exact last
    -- A frame that is followed by others is not one that runs to the end.
    have ends : ¬ f.RunsToEnd := by
      intro runs
      have empty := first.ended runs
      subst empty
      rw [FramesAt.nil_iff.mp others] at bounded
      exact bounded f rfl runs
    have step : (f.name = none → left ≠ []) → decodeFrames (window ++ more) enabled limit =
        (decodeFrames more enabled limit).map fun back => f :: seam fs back := by
      intro other
      have nonempty : window ++ more ≠ [] := by
        intro empty
        rw [(List.append_eq_nil_iff.mp empty).1] at shorter
        exact Nat.not_lt_zero _ shorter
      have longer := first.append ends other more
      rw [decodeFrames_step nonempty, longer.decode, ok_bind]
      simp only [longer.left_eq, ih others_bounded]
      cases decodeFrames more enabled limit <;> rfl
    rcases first.decoded.cases with ⟨count, rfl, positive⟩ | ⟨name, named⟩
    · cases fs with
      | nil =>
        -- The run is the last frame, and the payload behind it may begin with more of it.
        cases others
        rw [padding_layout_iff.mp first.spelled, List.append_nil]
        exact decodeFrames_zeros positive more
      | cons next fs =>
        apply step
        intro _ empty
        subst empty
        cases FramesAt.nil_iff.mp others
    · have front : seam (f :: fs) = fun back => f :: seam fs back := by
        funext back
        exact seam_named named fs back
      rw [front]
      apply step
      intro padding
      rw [named] at padding
      cases padding

/--
Frames say themselves where they end, unless their data runs to the end of the record.

Such a frame decodes alike whatever follows it, and from none of its fronts.
Behind frames like it, a payload is decoded as on its own, up to a run of padding across the seam.
-/
theorem frames_selfDelimiting :
    (∀ enabled limit bytes f,
      decodeFrame bytes 0 bytes.length enabled limit = .ok (f, bytes.length) →
      (∀ count, f ≠ .padding count) → ¬ f.RunsToEnd →
      (∀ more, decodeFrame (bytes ++ more) 0 (bytes ++ more).length enabled limit =
        .ok (f, bytes.length)) ∧
      ∀ front, front <+: bytes → front ≠ bytes → ∃ reason,
        decodeFrame front 0 front.length enabled limit = .error (.decodeError FE reason)) ∧
    (∀ enabled limit first frames, decodeFrames first enabled limit = .ok frames →
      (∀ f ∈ frames.getLast?, ¬ f.RunsToEnd) → ∀ second,
      decodeFrames (first ++ second) enabled limit =
        (decodeFrames second enabled limit).map (seam frames)) := by
  refine ⟨?_, ?_⟩
  · intro enabled limit bytes f decoded other bounded
    obtain ⟨left, placed, whole⟩ := decodeFrame_eq_ok.mp decoded
    have shorter := placed.length_lt
    have ended : left = [] := List.eq_nil_of_length_eq_zero (by omega)
    subst ended
    obtain ⟨name, named⟩ : ∃ name, f.name = some name := by
      rcases placed.decoded.cases with ⟨count, rfl, -⟩ | named
      · exact absurd rfl (other _)
      · exact named
    refine ⟨?_, ?_⟩
    · intro more
      have longer := placed.append bounded (by simp [named]) more
      rw [longer.decode, List.nil_append, List.length_append, Nat.add_sub_cancel]
    · intro front fits proper
      rcases fits with ⟨tail, rfl⟩
      have some : tail ≠ [] := by
        intro empty
        rw [empty, List.append_nil] at proper
        exact proper rfl
      exact decodeFrame_cut placed named bounded some
  · intro enabled limit first frames decoded bounded second
    exact (decodeFrames_eq_ok.mp decoded).decode_append bounded second

end Zmux
