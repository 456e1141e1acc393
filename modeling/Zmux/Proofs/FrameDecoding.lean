import Zmux.Proofs.FrameTypes

/-! What the decoder does on a window, and how a window inside a buffer is decoded. -/

namespace Zmux

open Wire

/-- The number of zero bytes a byte string begins with. -/
def zeros (window : Bytes) : Nat := (window.takeWhile (· = 0)).length

/-- A zero in front is one more of them. -/
theorem zeros_zero (window : Bytes) : zeros (0 :: window) = zeros window + 1 := by simp [zeros]

/-- Any other byte in front ends the zeros. -/
theorem zeros_other {byte : UInt8} (other : byte ≠ 0) (window : Bytes) :
    zeros (byte :: window) = 0 := by simp [zeros, other]

/-- Zero bytes in front of another byte are all counted. -/
theorem zeros_replicate (count : Nat) {left : Bytes} (other : left.head? ≠ some 0) :
    zeros (List.replicate count 0 ++ left) = count := by
  -- The induction is on the run, and what follows it adds nothing.
  induction count with
  | zero =>
    cases left with
    | nil => rfl
    | cons byte left => exact zeros_other (by simpa using other) left
  | succ count ih => rw [List.replicate_succ, List.cons_append, zeros_zero, ih]

/-- A byte string is its leading zero bytes and what another byte begins. -/
theorem zeros_split (window : Bytes) :
    window = List.replicate (zeros window) 0 ++ window.drop (zeros window) ∧
      (window.drop (zeros window)).head? ≠ some 0 := by
  -- The run ends at the first other byte, or with the byte string.
  induction window with
  | nil => exact ⟨rfl, by simp⟩
  | cons byte window ih =>
    by_cases zero : byte = 0
    · subst zero
      rw [zeros_zero, List.replicate_succ, List.drop_succ_cons, List.cons_append, ← ih.1]
      exact ⟨rfl, ih.2⟩
    · rw [zeros_other zero]
      exact ⟨rfl, by simpa using zero⟩

/-- Padding is counted to the end of its run. -/
theorem skipPadding_eq {buf : Bytes} {pos n : Nat} : skipPadding buf pos buf.length n =
    .ok (n + zeros (buf.drop pos), pos + zeros (buf.drop pos)) := by
  -- The induction follows the loop, which counts the zero byte it stands on.
  induction pos, n using skipPadding.induct buf.length with
  | case1 pos n below ih =>
    have head := List.drop_eq_getElem_cons below
    have found : item buf pos = .ok buf[pos] := by simp [item, below]
    rw [skipPadding, if_pos below, found, ok_bind, head]
    by_cases zero : buf[pos] = 0
    · rw [if_pos zero, ih, zero, zeros_zero, Nat.add_right_comm n, Nat.add_right_comm pos]
      rfl
    · rw [if_neg zero, zeros_other zero]
      rfl
  | case2 pos n past =>
    have ended : buf.drop pos = [] := List.drop_eq_nil_of_le (by omega)
    rw [skipPadding, if_neg past, ended]
    rfl

/-- What a frame's span is held against, once its fields are read. -/
def checkSpan (row : FrameMeta) (span : Nat) (limit : Option Nat) : Except Failure Unit := do
  -- Both checks concern one kind of frame each, so at most one of them can fail.
  raiseIf (row.name = .pipeJoin ∧ span > Limits.maxJoinFrameBytes)
    (.decodeError FE "PIPE_JOIN longer than 64 bytes")
  raiseIf (row.name = .datagram ∧ ∃ most ∈ limit, span > most)
    (.decodeError PV "DATAGRAM larger than max_datagram_frame_size")

variable {enabled : Gates} {limit : Option Nat} {code width : Nat} {rest : Bytes}

/-- The number in front of some bytes is decoded in its own width. -/
theorem decodeVarint_at (legal : VarintLegal code width) :
    decodeVarint (varintForm code width ++ rest) 0 FE = .ok (code, width, width) :=
  decodeVarint_begin.mpr ⟨legal, rfl, rest, rfl⟩

/-- A type that is not in its shortest form is refused before anything else. -/
theorem decodeFrame_wide (legal : VarintLegal code width) (wide : width ≠ varintShortest code)
    (stop : Nat) : decodeFrame (varintForm code width ++ rest) 0 stop enabled limit =
      .error (.decodeError PV "frame type not minimally encoded") := by
  -- The width is compared before the registry is asked.
  simp only [decodeFrame, decodeVarint_at legal, ok_bind, varintLen_legal legal, raiseIf,
    if_pos wide, error_bind]

/-- Zero bytes are one frame up to the end of their run. -/
theorem decodeFrame_padding : decodeFrame (0 :: rest) 0 (rest.length + 1) enabled limit =
    .ok (.padding (some (1 + zeros rest)), 1 + zeros rest) := by
  -- The type of padding is its own first byte, and the run begins behind it.
  have legal : VarintLegal 0 1 := ⟨.inl rfl, by decide⟩
  have form : varintForm 0 1 = [0] := by decide
  have typed : decodeVarint (0 :: rest) 0 FE = .ok (0, 1, 1) := by
    have decoded := @decodeVarint_at 0 1 rest legal
    rwa [form] at decoded
  have minimal : varintLen ((0 : Nat) : Int) = .ok 1 := rfl
  have skipped := @skipPadding_eq (0 :: rest) 1 1
  rw [List.length_cons, List.drop_one, List.tail_cons] at skipped
  simp only [decodeFrame, typed, ok_bind, minimal, raiseIf, ne_eq, not_true_eq_false, if_false,
    skipped, if_true, pure_ok]

/-- Behind a type in its shortest form, the fields are read up to the end of the window. -/
theorem decodeFrame_typed (legal : VarintLegal code (varintShortest code)) (typed : code ≠ 0) :
    decodeFrame (varintForm code (varintShortest code) ++ rest) 0
      (varintForm code (varintShortest code) ++ rest).length enabled limit = (do
        let row ← checkType code enabled
        let (f, left) ← (decodeFields row.name code).on rest
        checkSpan row (varintShortest code + rest.length - left.length) limit
        return (f, varintShortest code + rest.length - left.length)) := by
  -- Reading in place up to the end is reading the bytes behind the type.
  have wide := varintForm_length legal
  have behind : (varintForm code (varintShortest code) ++ rest).drop (varintShortest code) = rest :=
    List.drop_left' wide
  have total : (varintForm code (varintShortest code) ++ rest).length =
      varintShortest code + rest.length := by rw [List.length_append, wide]
  simp only [decodeFrame, decodeVarint_at legal, ok_bind, varintLen_legal legal, raiseIf, ne_eq,
    not_true_eq_false, if_false, if_neg typed]
  cases checkType code enabled with
  | error fault => rfl
  | ok row =>
    have within : varintShortest code ≤
        (varintForm code (varintShortest code) ++ rest).length := by omega
    have read := (decodeFields row.name code).run_eq_on within
    rw [behind, total] at read
    simp only [ok_bind, total, read]
    cases (decodeFields row.name code).on rest with
    | error fault => rfl
    | ok answer =>
      obtain ⟨f, left⟩ := answer
      have inside : ¬ varintShortest code + rest.length - left.length >
          varintShortest code + rest.length := by omega
      simp only [map_ok, ok_bind, Nat.sub_zero, inside, if_false, checkSpan, raiseIf]
      split <;> rfl

/-- A frame is refused where no type can be read. -/
theorem decodeFrame_untyped {window : Bytes} {fault : Failure}
    (untyped : decodeVarint window 0 FE = .error fault) (stop : Nat) :
    decodeFrame window 0 stop enabled limit = .error fault := by
  -- The type is the first thing that is read.
  rw [decodeFrame, untyped, error_bind]

/-- A type is let through when it is known, not prohibited, and its gate is open. -/
theorem checkType_eq_ok {row : FrameMeta} : checkType code enabled = .ok row ↔
    frameByType code = some row ∧ row.kind ≠ .prohibited ∧ checkGate row enabled = .ok () := by
  -- The row found is the answer, once neither check refuses it.
  unfold checkType
  cases frameByType code with
  | none => simp
  | some found =>
    simp only [bind_eq_ok, raiseIf_eq_ok, pure_ok, Except.ok.injEq, Option.some.injEq]
    constructor
    · intro checked
      obtain ⟨-, allowed, _, gate, rfl⟩ := checked
      exact ⟨rfl, allowed, gate⟩
    · intro checked
      obtain ⟨rfl, allowed, gate⟩ := checked
      exact ⟨(), allowed, (), gate, rfl⟩

/-- A form takes from one to eight bytes. -/
theorem begins_length {number : Nat} {window behind : Bytes}
    (begins : Begins varintFormat number window behind) :
    behind.length + 1 ≤ window.length ∧ window.length ≤ behind.length + 8 := by
  -- A form has one of four widths, the largest of them eight.
  obtain ⟨width, legal, rfl⟩ := begins
  have widths := varint_width legal
  rw [List.length_append, varintFormat.form_length legal]
  omega

/-- The fields of a join take from 22 to 58 bytes. -/
theorem join_length {join : Join} {window left : Bytes} (decoded : join.Decoded)
    (starts : Starts varintFormat (join.body ++ .bytes join.token .done) window left) :
    left.length + 22 ≤ window.length ∧ window.length ≤ left.length + 58 := by
  -- Three integers of at most eight bytes, and parts of known or bounded width.
  simp only [Join.body, nums, Layout.bytes_append, Layout.num_append, Layout.done_append,
    starts_bytes_iff, starts_num_begins, starts_done_iff] at starts
  obtain ⟨_, rfl, _, first, _, rfl, _, second, _, third, _, rfl, rfl⟩ := starts
  have front := begins_length first
  have middle := begins_length second
  have back := begins_length third
  obtain ⟨least, most⟩ := decoded.locator
  have token := decoded.token
  have sixteen : Limits.maxLocatorBytes = 16 := rfl
  simp only [List.length_append, List.length_cons, List.length_nil] at front middle back ⊢
  omega

/-- The names of the prohibited types. -/
def prohibitedNames : List FrameName :=
  [.ping, .ack, .crypto, .newToken, .newConnectionId, .retireConnectionId, .pathChallenge,
    .pathResponse, .handshakeDone]

variable {f : Frame} {name : FrameName}

/-- A frame decoded is a run of padding, or has a type with fields. -/
theorem Frame.Decoded.cases (decoded : f.Decoded) :
    (∃ count, f = .padding (some count) ∧ 0 < count) ∨ ∃ name, f.name = some name := by
  cases f with
  | raw | repeated => exact decoded.elim
  | padding count =>
    cases count with
    | none => exact decoded.elim
    | some count => exact .inl ⟨count, rfl, decoded⟩
  | _ => exact .inr ⟨_, rfl⟩

/-- The type of a decoded frame with fields is registered for its name and not prohibited. -/
theorem Frame.Decoded.typed (decoded : f.Decoded) (named : f.name = some name) :
    typeCode f = .ok f.code ∧ f.Flagged f.code ∧ f.code ≠ 0 ∧
    VarintLegal f.code (varintShortest f.code) ∧
    ∃ row, frameByType f.code = some row ∧ row.name = name ∧ row.kind ≠ .prohibited := by
  -- The type of the frame has a row under its name, and the table says what that row is like.
  have coded : typeCode f = .ok f.code := by
    have some : ∃ code, typeCode f = .ok code := by
      cases f with
      | raw | repeated => cases named
      | _ => exact ⟨_, rfl⟩
    obtain ⟨code, coded⟩ := some
    rw [Frame.code, coded]
  obtain ⟨flagged, row, found, rfl⟩ := (typeCode_iff named decoded).mp coded
  obtain ⟨member, above, below⟩ := frameByType_range found
  -- Padding and the prohibited types have no fields.
  have listed : row.name ∉ prohibitedNames ∧ row.name ≠ .padding := by
    cases f <;>
      first | cases named | (rw [Frame.name, Option.some.injEq] at named; rw [← named]; decide)
  have table : ∀ row ∈ frameTypes, (row.kind = .prohibited → row.name ∈ prohibitedNames) ∧
      (row.first = 0 → row.name = .padding) ∧ row.last ≤ maxVarint := by decide
  obtain ⟨kind, first, last⟩ := table row member
  refine ⟨coded, flagged, ?_, legal_shortest_iff.mpr (by omega), row, found, rfl, ?_⟩
  · intro zero
    exact listed.2 (first (by omega))
  · intro prohibited
    exact listed.1 (kind prohibited)

/-- One of the gates of a frame is in effect, or it has none. -/
def Frame.Allowed (enabled : Gates) (f : Frame) : Prop :=
  ∀ row, frameByType f.code = some row → checkGate row enabled = .ok ()

/-- With every gate in effect, every frame is allowed. -/
theorem Frame.allowed_all (f : Frame) : f.Allowed none := by
  -- Without a set of gates the check of them is not made.
  intro row found
  simp [checkGate, raiseIf]

/-- A byte string begins with a frame that the decoder gives, and goes on with a rest. -/
structure FrameAt (enabled : Gates) (limit : Option Nat) (f : Frame) (window left : Bytes) :
    Prop where
  decoded : f.Decoded
  spelled : Starts varintFormat f.layout window left
  /-- Padding is a whole run. -/
  maximal : f.name = none → left.head? ≠ some 0
  ended : f.RunsToEnd → left = []
  allowed : f.Allowed enabled
  /-- A datagram is within the limit from its type on. -/
  sized : f.name = some .datagram → ∀ most ∈ limit, window.length - left.length ≤ most

variable {window left : Bytes}

/-- A frame with a name is laid out as its type, then its fields. -/
theorem typed_layout (named : f.name = some name) :
    f.layout = .bytes (varintForm f.code (varintShortest f.code)) f.fields := by
  -- Only padding is laid out otherwise, and it has no name.
  cases f with
  | padding => cases named
  | _ => rfl

/-- A frame with fields is spelled as its type, then its fields. -/
theorem typed_layout_iff (named : f.name = some name) :
    Starts varintFormat f.layout window left ↔
      ∃ rest, window = varintForm f.code (varintShortest f.code) ++ rest ∧
        Starts varintFormat f.fields rest left := by
  rw [typed_layout named, starts_bytes_iff]

/-- A run of padding is spelled as so many zero bytes. -/
theorem padding_layout_iff {count : Nat} :
    Starts varintFormat (Frame.padding (some count)).layout window left ↔
      window = List.replicate count 0 ++ left := by
  simp [Frame.layout]

/-- What is left of a spelled layout is no longer than the whole. -/
theorem starts_length {layout : Layout} (starts : Starts varintFormat layout window left) :
    left.length ≤ window.length := by
  -- A spelling is a front of the window, whatever it consists of.
  obtain ⟨widths, reads⟩ := starts
  obtain ⟨spelled, rfl, -⟩ := reads_prefix_iff.mp reads
  simp

/-- The span checks pass for a frame that is spelled and within its limit. -/
theorem checkSpan_eq_ok {row : FrameMeta} {rest : Bytes} (decoded : f.Decoded)
    (named : f.name = some row.name) (found : frameByType f.code = some row)
    (starts : Starts varintFormat f.fields rest left) :
    checkSpan row (varintShortest f.code + rest.length - left.length) limit = .ok () ↔
      (f.name = some .datagram → ∀ most ∈ limit,
        varintShortest f.code + rest.length - left.length ≤ most) := by
  have short : ¬ (row.name = .pipeJoin ∧
      varintShortest f.code + rest.length - left.length > Limits.maxJoinFrameBytes) := by
    intro long
    obtain ⟨joined, long⟩ := long
    rw [joined] at named
    -- No join that passes the checks of its fields comes near the limit.
    cases f with
    | pipeJoin join =>
      have four : varintShortest (Frame.pipeJoin join).code = 4 := rfl
      have bound := join_length decoded starts
      have sixtyFour : Limits.maxJoinFrameBytes = 64 := rfl
      omega
    | _ => cases named
  simp only [checkSpan, bind_eq_ok, raiseIf_eq_ok, named, Option.some.injEq]
  constructor
  · intro checked datagram most within
    obtain ⟨-, -, small⟩ := checked
    by_contra large
    exact small ⟨datagram, most, within, by omega⟩
  · intro sized
    refine ⟨(), short, ?_⟩
    intro large
    obtain ⟨datagram, most, within, large⟩ := large
    have small := sized datagram most within
    omega

/-- A whole run of zero bytes is one frame of padding. -/
theorem FrameAt.padding {count : Nat} (positive : 0 < count) (maximal : left.head? ≠ some 0) :
    FrameAt enabled limit (.padding (some count)) (List.replicate count 0 ++ left) left := by
  refine ⟨positive, padding_layout_iff.mpr rfl, fun _ => maximal, False.elim, ?_, ?_⟩
  · -- Padding has no gate.
    intro row found
    cases found
    simp [checkGate, Gate.names, raiseIf]
  · intro datagram
    cases datagram

/-- A zero byte begins a run of padding, which the window goes on from. -/
theorem frameAt_padding : FrameAt enabled limit (.padding (some (1 + zeros rest))) (0 :: rest)
    (rest.drop (zeros rest)) := by
  obtain ⟨split, other⟩ := zeros_split rest
  have run : 0 :: rest = List.replicate (1 + zeros rest) 0 ++ rest.drop (zeros rest) := by
    rw [Nat.add_comm, List.replicate_succ]
    exact congrArg (List.cons 0) split
  rw [run]
  exact .padding (Nat.lt_add_right _ Nat.one_pos) other

/-- A type whose row lets it through, and fields read behind it, are a frame of the window. -/
theorem frameAt_typed {row : FrameMeta} (legal : VarintLegal code (varintShortest code))
    (found : frameByType code = some row) (gate : checkGate row enabled = .ok ())
    (read : (decodeFields row.name code).on rest = .ok (f, left))
    (span : checkSpan row (varintShortest code + rest.length - left.length) limit = .ok ()) :
    FrameAt enabled limit f (varintForm code (varintShortest code) ++ rest) left := by
  obtain ⟨named, flagged, decoded, starts, ended⟩ := decodeFields_sound read
  -- The fields and the flags bring the type back.
  have coded := (typeCode_iff named decoded).mpr ⟨flagged, row, found, rfl⟩
  have same : f.code = code := by rw [Frame.code, coded]
  subst same
  constructor
  case decoded => exact decoded
  case spelled => exact (typed_layout_iff named).mpr ⟨rest, rfl, starts⟩
  case maximal =>
    intro unnamed
    rw [named] at unnamed
    cases unnamed
  case ended => exact ended
  case allowed =>
    intro other same
    rw [found] at same
    cases same
    exact gate
  case sized =>
    rw [List.length_append, varintForm_length legal]
    exact (checkSpan_eq_ok decoded named found starts).mp span

/-- What the decoder answers on a window is a frame that the window begins with. -/
theorem decodeFrame_sound {next : Nat}
    (decoded : decodeFrame window 0 window.length enabled limit = .ok (f, next)) :
    ∃ left, FrameAt enabled limit f window left ∧ next = window.length - left.length := by
  cases typed : decodeVarint window 0 FE with
  | error fault =>
    rw [decodeFrame_untyped typed] at decoded
    cases decoded
  | ok answer =>
    obtain ⟨code, _, width⟩ := answer
    obtain ⟨legal, -, rest, rfl⟩ := decodeVarint_begin.mp typed
    by_cases minimal : width = varintShortest code
    · subst minimal
      by_cases zero : code = 0
      · -- Padding goes on to the first byte that is not zero.
        subst zero
        have form : varintForm 0 (varintShortest 0) = [0] := by decide
        rw [form] at decoded ⊢
        rw [List.cons_append, List.nil_append, List.length_cons, decodeFrame_padding] at decoded
        simp only [Except.ok.injEq, Prod.mk.injEq] at decoded
        obtain ⟨rfl, rfl⟩ := decoded
        refine ⟨rest.drop (zeros rest), frameAt_padding, ?_⟩
        have few : zeros rest ≤ rest.length := (List.takeWhile_prefix _).length_le
        simp only [List.length_append, List.length_cons, List.length_nil, List.length_drop]
        omega
      · rw [decodeFrame_typed legal zero] at decoded
        simp only [bind_eq_ok, Prod.exists, checkType_eq_ok, pure_ok, Except.ok.injEq,
          Prod.mk.injEq] at decoded
        obtain ⟨row, ⟨found, -, gate⟩, frame, left, read, _, span, rfl, rfl⟩ := decoded
        refine ⟨left, frameAt_typed legal found gate read span, ?_⟩
        rw [List.length_append, varintForm_length legal]
    · rw [decodeFrame_wide legal minimal] at decoded
      cases decoded

/-- A frame that a window begins with is what the decoder answers on it. -/
theorem FrameAt.decode (placed : FrameAt enabled limit f window left) :
    decodeFrame window 0 window.length enabled limit = .ok (f, window.length - left.length) := by
  obtain ⟨decoded, spelled, maximal, ended, allowed, sized⟩ := placed
  rcases decoded.cases with ⟨count, rfl, positive⟩ | ⟨name, named⟩
  · -- The run ends where the window goes on with another byte, or not at all.
    have same := padding_layout_iff.mp spelled
    obtain ⟨count, rfl⟩ := Nat.exists_eq_add_one_of_ne_zero (Nat.ne_of_gt positive)
    rw [List.replicate_succ, List.cons_append] at same
    rw [same, List.length_cons, decodeFrame_padding, zeros_replicate count (maximal rfl)]
    simp only [Except.ok.injEq, Prod.mk.injEq, Frame.padding.injEq, Option.some.injEq,
      List.length_append, List.length_replicate]
    omega
  · obtain ⟨rest, rfl, starts⟩ := (typed_layout_iff named).mp spelled
    obtain ⟨-, flagged, nonzero, legal, row, found, rfl, kind⟩ := decoded.typed named
    have wide := varintForm_length legal
    rw [List.length_append, wide] at sized
    -- Each check of the decoder is one of the fields of the placement.
    have span := (@checkSpan_eq_ok limit _ _ _ _ decoded named found starts).mpr sized
    have checked := checkType_eq_ok.mpr ⟨found, kind, allowed row found⟩
    rw [decodeFrame_typed legal nonzero, checked, ok_bind,
      decodeFields_complete named flagged decoded starts ended, ok_bind]
    simp only [span, ok_bind, List.length_append, wide, pure_ok]

/-- The decoder gives a frame exactly where a window begins with it. -/
theorem decodeFrame_eq_ok {next : Nat} :
    decodeFrame window 0 window.length enabled limit = .ok (f, next) ↔
      ∃ left, FrameAt enabled limit f window left ∧ next = window.length - left.length := by
  constructor
  · exact decodeFrame_sound
  · intro placed
    obtain ⟨left, placed, rfl⟩ := placed
    exact placed.decode

end Zmux
