import Zmux.Proofs.Datagrams
import Zmux.Proofs.Payloads

/-! Gates and the limit of datagrams only filter what is decoded without them. -/

namespace Zmux

open Wire

/-- The gates of a frame, one of which must be in effect. -/
def Frame.gates (f : Frame) : List TpName :=
  match frameByType f.code with
  | some row => row.gate.names
  -- Every type of a decoded frame is registered, so this row is always there.
  | none => []

/-- A frame without a gate, or one of whose gates is in effect. -/
def Frame.Open (enabled : Gates) (f : Frame) : Prop :=
  f.gates ≠ [] → ∀ names ∈ enabled, ∃ gate ∈ f.gates, gate ∈ names

instance (enabled : Gates) (f : Frame) : Decidable (f.Open enabled) :=
  inferInstanceAs (Decidable (f.gates ≠ [] → ∀ names ∈ enabled, ∃ gate ∈ f.gates, gate ∈ names))

/-- A frame and the bytes it takes are let through by the gates and by the limit of datagrams. -/
def Permitted (enabled : Gates) (limit : Option Nat) (entry : Frame × Nat) : Prop :=
  entry.1.Open enabled ∧ (entry.1.name = some .datagram → ¬ Above limit entry.2)

/-- Gates that let through everything others do. -/
def Wider (enabled wider : Gates) : Prop :=
  -- Without a set of gates, all of them are in effect.
  ∀ names ∈ wider, ∃ fewer ∈ enabled, ∀ gate ∈ fewer, gate ∈ names

/-- The frames of some bytes, decoded without gates, each with the number of bytes it takes. -/
inductive Spans : List (Frame × Nat) → Bytes → Prop where
  | nil : Spans [] []
  | cons {f : Frame} {span : Nat} {others : List (Frame × Nat)} {window : Bytes}
      (first : decodeFrame window 0 window.length = .ok (f, span))
      (rest : Spans others (window.drop span)) : Spans ((f, span) :: others) window

variable {enabled : Gates} {limit : Option Nat} {f : Frame} {span : Nat} {window : Bytes}

/-- What a decoded frame is held against besides its own bytes. -/
def letThrough (enabled : Gates) (limit : Option Nat) (entry : Frame × Nat) :
    Except Failure Frame := do
  match frameByType entry.1.code with
  | none => .ok entry.1
  | some row => do
    checkGate row enabled
    checkSpan row entry.2 limit
    return entry.1

/-- A frame that decodes without gates decodes to the same under them, once it is let through. -/
theorem decodeFrame_letThrough (decoded : decodeFrame window 0 window.length = .ok (f, span)) :
    decodeFrame window 0 window.length enabled limit =
      (letThrough enabled limit (f, span)).map fun f => (f, span) := by
  -- Padding has no gate, and other frames are read alike behind the checks of their type.
  obtain ⟨left, placed, rfl⟩ := decodeFrame_eq_ok.mp decoded
  rcases placed.decoded.cases with ⟨count, rfl, positive⟩ | ⟨name, named⟩
  · -- Padding has no gate and no limit.
    have free : FrameAt enabled limit (.padding (some count)) window left := by
      rw [padding_layout_iff.mp placed.spelled]
      exact .padding positive (placed.maximal rfl)
    have found : frameByType (Frame.padding (some count)).code =
        some ⟨.padding, 0x00, 0x00, .core, .none⟩ := rfl
    rw [free.decode]
    simp [letThrough, found, checkGate, Gate.names, checkSpan, raiseIf]
  · obtain ⟨rest, rfl, starts⟩ := (typed_layout_iff named).mp placed.spelled
    obtain ⟨-, flagged, nonzero, legal, row, found, rfl, kind⟩ := placed.decoded.typed named
    -- The fields are read as without gates, so only the two checks around them are left.
    have read := decodeFields_complete named flagged placed.decoded starts placed.ended
    rw [decodeFrame_typed legal nonzero, List.length_append, varintForm_length legal]
    simp only [letThrough, found, checkType, raiseIf, if_neg kind, ok_bind]
    cases checkGate row enabled with
    | error fault => rfl
    | ok passed =>
      simp only [ok_bind, read, pure_ok]
      cases checkSpan row (varintShortest f.code + rest.length - left.length) limit <;> rfl

/-- A decoded frame has a row of its kind, and is no join that is too long. -/
theorem decodeFrame_row (decoded : decodeFrame window 0 window.length = .ok (f, span)) :
    ∃ row, frameByType f.code = some row ∧ (row.name = .datagram ↔ f.name = some .datagram) ∧
      ¬ (row.name = .pipeJoin ∧ span > Limits.maxJoinFrameBytes) := by
  -- Padding and other frames both have a row of the registry.
  obtain ⟨left, placed, rfl⟩ := decodeFrame_eq_ok.mp decoded
  rcases placed.decoded.cases with ⟨count, rfl, -⟩ | ⟨name, named⟩
  · exact ⟨⟨.padding, 0x00, 0x00, .core, .none⟩, rfl, by simp [Frame.name], by simp⟩
  · obtain ⟨rest, rfl, starts⟩ := (typed_layout_iff named).mp placed.spelled
    obtain ⟨-, -, -, legal, row, found, rfl, -⟩ := placed.decoded.typed named
    refine ⟨row, found, by rw [named, Option.some.injEq], ?_⟩
    -- Without a limit the span check passes, and it asks for joins that are short enough.
    have span := (@checkSpan_eq_ok none _ _ _ _ placed.decoded named found starts).mpr (by simp)
    simp only [checkSpan, bind_eq_ok, raiseIf_eq_ok] at span
    rcases span with ⟨-, short, -⟩
    rwa [List.length_append, varintForm_length legal]

/-- A decoded frame is let through when it is permitted. -/
theorem letThrough_eq_ok (decoded : decodeFrame window 0 window.length = .ok (f, span))
    {answer : Frame} : letThrough enabled limit (f, span) = .ok answer ↔
      Permitted enabled limit (f, span) ∧ f = answer := by
  -- The checks are the gate of the row and the limit of the row's kind.
  obtain ⟨row, found, datagram, short⟩ := decodeFrame_row decoded
  have gates : f.gates = row.gate.names := by simp only [Frame.gates, found]
  have shut : (row.gate.names ≠ [] ∧ ∃ names ∈ enabled, ¬ ∃ g ∈ row.gate.names, g ∈ names) ↔
      ¬ f.Open enabled := by
    simp only [Frame.Open, gates]
    push Not
    rfl
  simp only [letThrough, found, checkGate, checkSpan, bind_eq_ok, raiseIf_eq_ok, shut, datagram,
    not_not, pure_ok, Except.ok.injEq]
  constructor
  · intro passed
    rcases passed with ⟨-, isOpen, -, ⟨-, -, small⟩, rfl⟩
    exact ⟨⟨isOpen, fun named above => small ⟨named, above⟩⟩, rfl⟩
  · intro passed
    rcases passed with ⟨⟨isOpen, small⟩, rfl⟩
    exact ⟨(), isOpen, (), ⟨(), short, fun large => small large.1 large.2⟩, rfl⟩

/-- A datagram that is not let through is a protocol violation, any other frame an encoding error. -/
theorem letThrough_faults (decoded : decodeFrame window 0 window.length = .ok (f, span)) :
    Faults (letThrough enabled limit (f, span))
      (Failure.HasCode (if f.name = some .datagram then PV else FE)) := by
  -- The gate is asked first, and then the limit.
  obtain ⟨row, found, datagram, short⟩ := decodeFrame_row decoded
  simp only [letThrough, found, checkGate, checkSpan, datagram]
  refine Faults.bind (faults_raiseIf ?_) ?_
  · intro _
    -- The check of the gate words its error by the kind of the frame.
    split
    · exact hasCode_decodeError
    · exact hasCode_decodeError
  intro _ _
  refine Faults.bind (Faults.bind ?_ ?_) fun _ _ => faults_ok _
  · exact faults_raiseIf fun long => absurd long short
  · intro _ _
    refine faults_raiseIf ?_
    intro large
    rw [if_pos large.1]
    exact hasCode_decodeError

/-- No frame is decoded from no bytes. -/
theorem decodeFrame_ne_nil (decoded : decodeFrame window 0 window.length = .ok (f, span)) :
    window ≠ [] := by
  -- The type of a frame takes at least one byte.
  intro empty
  subst empty
  cases decoded

/-- Bytes decode to the frames they consist of. -/
theorem decodeFrames_spans {fs : List Frame} :
    decodeFrames window = .ok fs ↔ ∃ spans, Spans spans window ∧ spans.map Prod.fst = fs := by
  constructor
  · intro decoded
    -- The induction is on the frames, each of which is found where the one before it ends.
    have placed := decodeFrames_eq_ok.mp decoded
    clear decoded
    induction placed with
    | nil => exact ⟨[], .nil, rfl⟩
    | @cons f fs window left first others ih =>
      rcases ih with ⟨spans, rest, rfl⟩
      rw [← first.left_eq] at rest
      exact ⟨(f, window.length - left.length) :: spans, .cons first.decode rest, rfl⟩
  · intro found
    rcases found with ⟨spans, found, rfl⟩
    induction found with
    | nil => exact decodeFrames_nil
    | @cons f span others window first rest ih =>
      rw [decodeFrames_step (decodeFrame_ne_nil first), first, ok_bind]
      simp only [ih, ok_bind, pure_ok, List.map_cons]

/-- Under gates and a limit, the frames that bytes consist of are let through one by one. -/
theorem decodeFrames_letThrough {spans : List (Frame × Nat)} (found : Spans spans window) :
    decodeFrames window enabled limit = spans.mapM (letThrough enabled limit) := by
  -- The induction is on the frames, and refusing one ends both runs.
  induction found with
  | nil => exact decodeFrames_nil
  | @cons f span others window first rest ih =>
    rw [decodeFrames_step (decodeFrame_ne_nil first), decodeFrame_letThrough first, List.mapM_cons]
    cases passed : letThrough enabled limit (f, span) with
    | error fault => rfl
    | ok same => simp only [map_ok, ok_bind, ih]

/-- Every frame that bytes consist of is decoded from some of them. -/
theorem Spans.decoded {spans : List (Frame × Nat)} (found : Spans spans window) :
    ∀ entry ∈ spans, ∃ part, decodeFrame part 0 part.length = .ok entry := by
  -- The induction is on the frames, the first of which is decoded where it is found.
  induction found with
  | nil => simp
  | cons first rest ih =>
    intro entry member
    rcases List.mem_cons.mp member with rfl | member
    · exact ⟨_, first⟩
    · exact ih entry member

/-- The bytes consist of one sequence of frames only. -/
theorem Spans.unique {spans others : List (Frame × Nat)} (found : Spans spans window)
    (again : Spans others window) : spans = others := by
  -- The induction is on the frames, and the decoder gives only one frame at a place.
  induction found generalizing others with
  | nil =>
    cases again with
    | nil => rfl
    | cons first rest => cases first
  | cons first rest ih =>
    cases again with
    | nil => cases first
    | cons other behind =>
      rw [first] at other
      cases other
      rw [ih behind]

/-- Frames are let through together when each of them is permitted. -/
theorem mapM_letThrough_eq_ok {spans : List (Frame × Nat)} (found : Spans spans window)
    {fs : List Frame} : spans.mapM (letThrough enabled limit) = .ok fs ↔
      (∀ entry ∈ spans, Permitted enabled limit entry) ∧ spans.map Prod.fst = fs := by
  -- The induction is on the frames, each of which is let through as it is.
  induction found generalizing fs with
  | nil => simp [eq_comm]
  | cons first rest ih =>
    simp only [List.mapM_cons, bind_eq_ok, letThrough_eq_ok first, ih, pure_ok, Except.ok.injEq,
      List.forall_mem_cons, List.map_cons]
    constructor
    · intro passed
      rcases passed with ⟨_, ⟨permitted, rfl⟩, _, ⟨others, rfl⟩, rfl⟩
      exact ⟨⟨permitted, others⟩, rfl⟩
    · intro passed
      rcases passed with ⟨⟨permitted, others⟩, rfl⟩
      exact ⟨_, ⟨permitted, rfl⟩, _, ⟨others, rfl⟩, rfl⟩

/-- Bytes decode under gates and a limit when they do without and each frame is permitted. -/
theorem decodeFrames_permitted {fs : List Frame} : decodeFrames window enabled limit = .ok fs ↔
    ∃ spans, Spans spans window ∧ spans.map Prod.fst = fs ∧
      ∀ entry ∈ spans, Permitted enabled limit entry := by
  constructor
  · intro decoded
    -- What is decoded under gates is placed without them, so the frames can be taken from there.
    have placed := decodeFrames_eq_ok.mp decoded
    have free : FramesAt none none fs window := by
      clear decoded
      induction placed with
      | nil => exact .nil
      | cons first others ih =>
        refine .cons { first with allowed := ?_, sized := ?_ } ih
        · exact Frame.allowed_all _
        · intro _ most member
          cases member
    obtain ⟨spans, found, rfl⟩ := decodeFrames_spans.mp (decodeFrames_eq_ok.mpr free)
    rw [decodeFrames_letThrough found, mapM_letThrough_eq_ok found] at decoded
    exact ⟨spans, found, rfl, decoded.1⟩
  · intro passed
    rcases passed with ⟨spans, found, rfl, permitted⟩
    rw [decodeFrames_letThrough found, mapM_letThrough_eq_ok found]
    exact ⟨permitted, rfl⟩

/-- A frame that is let through by some gates is let through by wider ones. -/
theorem Frame.Open.wider {wider : Gates} (isOpen : f.Open enabled) (wide : Wider enabled wider) :
    f.Open wider := by
  intro gated names member
  -- The gate in effect is among the fewer names that the wider ones contain.
  obtain ⟨fewer, within, kept⟩ := wide names member
  obtain ⟨gate, listed, held⟩ := isOpen gated fewer within
  exact ⟨gate, listed, kept gate held⟩

/--
Gates and the limit of datagrams only filter what is decoded without them.

Bytes that consist of frames fail under them at the first frame that is not permitted.
-/
theorem decodeFrames_gates :
    (∀ payload spans others, Spans spans payload → Spans others payload → spans = others) ∧
    (∀ payload enabled limit fs, decodeFrames payload enabled limit = .ok fs ↔
      decodeFrames payload = .ok fs ∧ (∀ f ∈ fs, f.Open enabled) ∧
      ∃ spans, Spans spans payload ∧ spans.map Prod.fst = fs ∧
        ∀ f span, (f, span) ∈ spans → f.name = some .datagram → ∀ most ∈ limit, span ≤ most) ∧
    (∀ entries names, (Frame.pipeAck entries).Open (some names) ↔
      .zmuxMultipath ∈ names ∨ .zmuxPipeAck ∈ names) ∧
    (∀ payload enabled wider limit fs, Wider enabled wider →
      decodeFrames payload enabled limit = .ok fs → decodeFrames payload wider limit = .ok fs) ∧
    (∀ payload enabled limit fs fault, decodeFrames payload = .ok fs →
      decodeFrames payload enabled limit = .error fault →
      ∃ before f span after, Spans (before ++ (f, span) :: after) payload ∧
        (∀ entry ∈ before, Permitted enabled limit entry) ∧
        ¬ Permitted enabled limit (f, span) ∧
        fault.HasCode (if f.name = some .datagram then PV else FE)) := by
  refine ⟨?_, ?_, ?_, ?_, ?_⟩
  · intro payload spans others found again
    exact found.unique again
  · intro payload enabled limit fs
    rw [decodeFrames_permitted, decodeFrames_spans]
    constructor
    · intro passed
      rcases passed with ⟨spans, found, rfl, permitted⟩
      refine ⟨⟨spans, found, rfl⟩, ?_, spans, found, rfl, ?_⟩
      · intro f member
        obtain ⟨entry, listed, rfl⟩ := List.mem_map.mp member
        exact (permitted entry listed).1
      · intro f span listed datagram most within
        by_contra large
        exact (permitted _ listed).2 datagram ⟨most, within, by omega⟩
    · intro filtered
      rcases filtered with ⟨-, isOpen, spans, found, rfl, small⟩
      refine ⟨spans, found, rfl, ?_⟩
      intro entry member
      refine ⟨isOpen _ (List.mem_map_of_mem member), ?_⟩
      intro datagram above
      rcases above with ⟨most, within, large⟩
      have bound := small entry.1 entry.2 member datagram most within
      omega
  · intro entries names
    have gates : (Frame.pipeAck entries).gates = [.zmuxMultipath, .zmuxPipeAck] := rfl
    simp [Frame.Open, gates]
  · intro payload enabled wider limit fs wide decoded
    rw [decodeFrames_permitted] at decoded ⊢
    rcases decoded with ⟨spans, found, rfl, permitted⟩
    exact ⟨spans, found, rfl, fun entry member =>
      ⟨(permitted entry member).1.wider wide, (permitted entry member).2⟩⟩
  · intro payload enabled limit fs fault decoded failed
    obtain ⟨spans, found, rfl⟩ := decodeFrames_spans.mp decoded
    rw [decodeFrames_letThrough found, mapM_eq_error] at failed
    rcases failed with ⟨before, ⟨f, span⟩, after, rfl, earlier, refused⟩
    refine ⟨before, f, span, after, found, ?_, ?_, ?_⟩
    · intro entry member
      obtain ⟨part, first⟩ := found.decoded entry (List.mem_append_left _ member)
      obtain ⟨answer, passed⟩ := earlier entry member
      exact ((letThrough_eq_ok first).mp passed).1
    · intro permitted
      obtain ⟨part, first⟩ := found.decoded (f, span) (by simp)
      rw [(letThrough_eq_ok first).mpr ⟨permitted, rfl⟩] at refused
      cases refused
    · obtain ⟨part, first⟩ := found.decoded (f, span) (by simp)
      exact letThrough_faults first fault refused

end Zmux
