import Zmux.Proofs.FrameDecoding

/-! A payload decodes exactly when it is a sequence of frames without a gap. -/

namespace Zmux

open Wire

variable {enabled : Gates} {limit : Option Nat} {code width : Nat} {f : Frame} {fs : List Frame}
  {window left : Bytes}

/-- A frame up to the end of a buffer is decoded as it is in the suffix alone. -/
theorem decodeFrame_drop {buf : Bytes} {pos : Nat} (within : pos ≤ buf.length) :
    decodeFrame buf pos buf.length enabled limit =
      advance pos (decodeFrame (buf.drop pos) 0 (buf.drop pos).length enabled limit) := by
  -- Every check compares differences of positions, which moving the frame leaves alone.
  have width : (buf.drop pos).length = buf.length - pos := List.length_drop
  simp only [decodeFrame, decodeVarint_drop buf pos]
  cases typed : decodeVarint (buf.drop pos) 0 FE with
  | error fault => rfl
  | ok answer =>
    obtain ⟨code, next, taken⟩ := answer
    have bound := (decodeVarint_forward typed).2
    simp only [map_ok, ok_bind]
    cases varintLen code with
    | error fault => rfl
    | ok minimal =>
      simp only [ok_bind, raiseIf]
      -- A type in a wider form is refused in both places.
      by_cases wide : taken ≠ minimal
      · simp only [if_pos wide, error_bind, advance, map_error]
      simp only [if_neg wide, ok_bind]
      by_cases zero : code = 0
      · -- The padding behind the type is the same in the suffix.
        simp only [if_pos zero, skipPadding_eq, List.drop_drop, ok_bind, pure_ok, advance, map_ok,
          Nat.add_assoc]
      · simp only [if_neg zero]
        cases checkType code enabled with
        | error fault => rfl
        | ok row =>
          simp only [ok_bind]
          -- The fields are read on the same suffix in both places.
          rw [(decodeFields row.name code).run_eq_on (by omega : pos + next ≤ buf.length),
            (decodeFields row.name code).run_eq_on bound, List.drop_drop]
          cases read : (decodeFields row.name code).on (buf.drop (pos + next)) with
          | error fault => rfl
          | ok answer =>
            obtain ⟨fields, behind⟩ := answer
            have short := (Scan.on_suffix read).length_le
            rw [List.length_drop] at short
            -- The number of bytes taken is the same, so the two checks of it are too.
            have span : buf.length - behind.length - pos =
                (buf.drop pos).length - behind.length - 0 := by omega
            have inside : ¬ buf.length - behind.length > buf.length := by omega
            have also : ¬ (buf.drop pos).length - behind.length > (buf.drop pos).length := by omega
            have moved : pos + ((buf.drop pos).length - behind.length) =
                buf.length - behind.length := by omega
            simp only [map_ok, ok_bind, span, if_neg inside, if_neg also]
            split
            · rfl
            · simp only [ok_bind]
              split
              · rfl
              · simp only [ok_bind, pure_ok, advance, map_ok, moved]

/-- The loop over a payload, one frame further. -/
theorem decodeFramesFrom_step {payload : Bytes} {pos : Nat} (below : pos < payload.length) :
    decodeFramesFrom payload pos enabled limit = (do
      let (f, next) ← decodeFrame payload pos payload.length enabled limit
      let fs ← decodeFramesFrom payload next enabled limit
      return f :: fs) := by
  -- The frame of the loop is matched once, and then each of its outcomes is taken further.
  conv => lhs; rw [decodeFramesFrom, if_pos below]
  split <;> rename_i found <;> simp only [found] <;> rfl

/-- The loop over a payload from a position on decodes the suffix there. -/
theorem decodeFramesFrom_drop {payload : Bytes} {pos : Nat} :
    decodeFramesFrom payload pos enabled limit = decodeFrames (payload.drop pos) enabled limit := by
  -- The induction is on the bytes that are left, which every frame shortens.
  induction width : payload.length - pos using Nat.strongRecOn generalizing payload pos with
  | _ width ih =>
    subst width
    unfold decodeFrames
    have total : (payload.drop pos).length = payload.length - pos := List.length_drop
    by_cases below : pos < payload.length
    · rw [decodeFramesFrom_step below, decodeFramesFrom_step (by omega : 0 < (payload.drop pos).length),
        decodeFrame_drop (by omega)]
      cases decoded : decodeFrame (payload.drop pos) 0 (payload.drop pos).length enabled limit with
      | error fault => rfl
      | ok answer =>
        obtain ⟨f, next⟩ := answer
        have forward := decodeFrame_forward decoded
        -- Both loops go on with the same suffix, which is shorter.
        have outer := ih (payload.length - (pos + next)) (by omega) rfl
        have inner := ih ((payload.drop pos).length - next) (by omega) rfl
        rw [List.drop_drop] at inner
        simp only [advance, map_ok, ok_bind, outer, inner]
    · have ended : ¬ 0 < (payload.drop pos).length := by omega
      rw [decodeFramesFrom, if_neg below, decodeFramesFrom, if_neg ended]

/-- An empty payload has no frames. -/
@[simp] theorem decodeFrames_nil : decodeFrames [] enabled limit = .ok [] := by
  -- The loop ends before its first step.
  rw [decodeFrames, decodeFramesFrom, if_neg (by simp)]

/-- A payload is its first frame and the payload behind it. -/
theorem decodeFrames_step (some : window ≠ []) : decodeFrames window enabled limit = (do
    let (f, next) ← decodeFrame window 0 window.length enabled limit
    let fs ← decodeFrames (window.drop next) enabled limit
    return f :: fs) := by
  -- The loop behind the first frame is the decoder on the suffix there.
  rw [decodeFrames, decodeFramesFrom_step (List.length_pos_of_ne_nil some)]
  simp only [decodeFramesFrom_drop]

/-- A byte string is a sequence of frames, each where the one before it ends. -/
inductive FramesAt (enabled : Gates) (limit : Option Nat) : List Frame → Bytes → Prop where
  | nil : FramesAt enabled limit [] []
  | cons {f : Frame} {fs : List Frame} {window left : Bytes}
      (first : FrameAt enabled limit f window left) (others : FramesAt enabled limit fs left) :
      FramesAt enabled limit (f :: fs) window

/-- A frame takes at least one byte. -/
theorem FrameAt.length_lt (placed : FrameAt enabled limit f window left) :
    left.length < window.length := by
  -- A run of padding is not empty, and any other frame has a type.
  rcases placed.decoded.cases with ⟨count, rfl, positive⟩ | ⟨name, named⟩
  · rw [padding_layout_iff.mp placed.spelled, List.length_append, List.length_replicate]
    omega
  · obtain ⟨rest, rfl, starts⟩ := (typed_layout_iff named).mp placed.spelled
    have short := starts_length starts
    simp only [List.length_append, varintForm, List.length_cons]
    omega

/-- What a frame leaves is the suffix behind it. -/
theorem FrameAt.left_eq (placed : FrameAt enabled limit f window left) :
    window.drop (window.length - left.length) = left := by
  -- The spelling is a front of the window, and what is left is the rest of it.
  obtain ⟨widths, reads⟩ := placed.spelled
  obtain ⟨spelled, rfl, -⟩ := reads_prefix_iff.mp reads
  rw [List.length_append, Nat.add_sub_cancel, List.drop_left]

/-- A payload decodes to the frames it is a sequence of, and to no others. -/
theorem decodeFrames_eq_ok :
    decodeFrames window enabled limit = .ok fs ↔ FramesAt enabled limit fs window := by
  -- One direction is an induction on the length, the other on the sequence of frames.
  constructor
  · intro decoded
    induction width : window.length using Nat.strongRecOn generalizing window fs with
    | _ width ih =>
      subst width
      by_cases empty : window = []
      · subst empty
        rw [decodeFrames_nil] at decoded
        cases decoded
        exact .nil
      · rw [decodeFrames_step empty] at decoded
        simp only [bind_eq_ok, Prod.exists, decodeFrame_eq_ok, pure_ok, Except.ok.injEq] at decoded
        obtain ⟨f, _, ⟨left, placed, rfl⟩, others, rest, rfl⟩ := decoded
        rw [placed.left_eq] at rest
        exact .cons placed (ih _ placed.length_lt rest rfl)
  · intro placed
    induction placed with
    | nil => exact decodeFrames_nil
    | @cons f fs window left first others ih =>
      have shorter := first.length_lt
      have some : window ≠ [] := by
        intro empty
        rw [empty] at shorter
        exact Nat.not_lt_zero _ shorter
      have found := decodeFrame_eq_ok.mpr ⟨left, first, rfl⟩
      rw [decodeFrames_step some, found, ok_bind]
      simp only [first.left_eq, ih, ok_bind, pure_ok]

/-- No bytes are no frames. -/
theorem FramesAt.nil_iff : FramesAt enabled limit fs [] ↔ fs = [] := by
  -- A frame would take at least one byte.
  constructor
  · intro placed
    cases placed with
    | nil => rfl
    | cons first others => exact absurd first.length_lt (Nat.not_lt_zero _)
  · intro empty
    subst empty
    exact .nil

/-- The type of a frame with fields does not begin with a zero byte. -/
theorem typed_head (legal : VarintLegal code width) (nonzero : code ≠ 0) (rest : Bytes) :
    (varintForm code width ++ rest).head? ≠ some 0 := by
  intro zero
  -- A zero byte is the one-byte form of zero, and forms are told apart.
  obtain ⟨tail, same⟩ := List.head?_eq_some_iff.mp zero
  have form : varintForm 0 1 = [0] := by decide
  have other : varintForm code width ++ rest = varintForm 0 1 ++ tail := by rw [form, same]; rfl
  exact nonzero (varintFormat.decodable legal ⟨.inl rfl, by decide⟩ other).1

/-- A payload begins with a zero byte exactly when its first frame is padding. -/
theorem FramesAt.head_iff (placed : FramesAt enabled limit fs window) :
    window.head? = some 0 ↔ ∃ f ∈ fs.head?, f.name = none := by
  -- Padding begins with a zero byte, and no type of another frame does.
  cases placed with
  | nil => simp
  | @cons f fs _ left first others =>
    rw [List.head?_cons]
    rcases first.decoded.cases with ⟨count, rfl, positive⟩ | ⟨name, named⟩
    · obtain ⟨count, rfl⟩ := Nat.exists_eq_add_one_of_ne_zero (Nat.ne_of_gt positive)
      rw [padding_layout_iff.mp first.spelled, List.replicate_succ]
      simp [Frame.name]
    · obtain ⟨rest, rfl, -⟩ := (typed_layout_iff named).mp first.spelled
      obtain ⟨-, -, nonzero, legal, -⟩ := first.decoded.typed named
      constructor
      · intro zero
        exact absurd zero (typed_head legal nonzero rest)
      · intro unnamed
        simp [named] at unnamed

/-- A payload spells the layout of its frames. -/
theorem FramesAt.starts (placed : FramesAt enabled limit fs window) :
    Starts varintFormat (framesLayout fs) window [] := by
  -- The induction is on the sequence, whose frames meet where one ends and the next begins.
  induction placed with
  | nil => exact starts_done_iff.mpr rfl
  | cons first others ih => exact starts_append_iff.mpr ⟨_, first.spelled, ih⟩

/-- The frames of a payload are all decoded frames. -/
theorem FramesAt.decoded (placed : FramesAt enabled limit fs window) : ∀ f ∈ fs, f.Decoded := by
  -- The induction is on the sequence, each of whose frames was decoded.
  induction placed with
  | nil => simp
  | cons first others ih =>
    intro f member
    rcases List.mem_cons.mp member with rfl | member
    · exact first.decoded
    · exact ih f member

end Zmux
