import Zmux.Proofs.FrameFaults
import Zmux.Proofs.Records

/-! A frame is decoded from its window, except that its type may be read beyond the end of it. -/

namespace Zmux

open Wire

variable {enabled : Gates} {limit : Option Nat} {buf : Bytes} {pos stop distance n : Nat}
  {code next width : Nat}

/-- A byte of a window is the byte of the buffer at the position moved by that of the window. -/
theorem item_slice (inner : distance < stop - pos) :
    item (slice buf pos stop) distance = item buf (pos + distance) := by
  simp [item, slice, List.getElem?_drop, inner]

/-- Padding that starts in a window is counted as in the window on its own. -/
theorem skipPadding_window (ordered : pos ≤ stop) :
    skipPadding buf (pos + distance) stop n =
      (skipPadding (slice buf pos stop) distance (stop - pos) n).map
        fun answer => (answer.1, pos + answer.2) := by
  -- The induction follows the loop over the window, which looks at the same bytes.
  induction distance, n using skipPadding.induct (stop - pos) with
  | case1 distance n below ih =>
    have here : pos + distance < stop := by omega
    conv => rhs; rw [skipPadding, if_pos below, item_slice below]
    rw [skipPadding, if_pos here]
    cases item buf (pos + distance) with
    | error fault => rfl
    | ok byte =>
      simp only [ok_bind]
      split
      · exact ih
      · rfl
  | case2 distance n past =>
    have there : ¬ pos + distance < stop := by omega
    conv => rhs; rw [skipPadding, if_neg past]
    rw [skipPadding, if_neg there]
    rfl

/-- A type that a window holds is the type at the position of the window. -/
theorem decodeVarint_window
    (typed : decodeVarint (slice buf pos stop) 0 FE = .ok (code, next, width)) :
    decodeVarint buf pos FE = .ok (code, pos + next, width) := by
  -- The buffer goes on behind the window, where nothing of the type lies.
  rcases decodeVarint_begin.mp typed with ⟨legal, rfl, tail, same⟩
  refine decodeVarint_eq_ok.mpr ⟨legal, rfl, tail ++ (buf.drop pos).drop (stop - pos), ?_⟩
  rw [← List.append_assoc, ← same, slice, List.take_append_drop]

/-- A type that a window does not hold ends behind the stop. -/
theorem decodeVarint_leaves {fault : Failure}
    (here : decodeVarint buf pos FE = .ok (code, next, width))
    (typed : decodeVarint (slice buf pos stop) 0 FE = .error fault) : stop < next := by
  -- Otherwise the window would begin with the whole form.
  rcases decodeVarint_eq_ok.mp here with ⟨legal, rfl, rest, continues⟩
  by_contra inside
  have wide := varintForm_length legal
  have held : slice buf pos stop =
      varintForm code width ++ rest.take (stop - pos - width) := by
    rw [slice, continues, List.take_append, wide, List.take_of_length_le (by omega)]
  have found : decodeVarint (slice buf pos stop) 0 FE = .ok (code, 0 + width, width) :=
    decodeVarint_eq_ok.mpr ⟨legal, rfl, _, held⟩
  rw [typed] at found
  cases found

/-- Behind a type that the window holds, a frame is decoded as in the window on its own. -/
theorem decodeFrame_inside (ordered : pos ≤ stop) (within : stop ≤ buf.length)
    (typed : decodeVarint (slice buf pos stop) 0 FE = .ok (code, next, width)) :
    Agree (decodeFrame buf pos stop enabled limit)
      (advance pos (decodeFrame (slice buf pos stop) 0 (stop - pos) enabled limit)) := by
  -- Once the type is known to be the same, both sides make the same checks.
  have moved := decodeVarint_window typed
  have bound := (decodeVarint_forward typed).2
  rw [slice_length within] at bound
  simp only [decodeFrame, typed, moved, ok_bind]
  cases varintLen code with
  | error fault => exact Setoid.refl fault
  | ok minimal =>
    simp only [ok_bind, raiseIf]
    -- A type in a wider form is refused in both places.
    by_cases wide : width ≠ minimal
    · simp only [if_pos wide, error_bind]
      exact Setoid.refl _
    simp only [if_neg wide, ok_bind]
    by_cases zero : code = 0
    · simp only [if_pos zero, skipPadding_window ordered]
      cases skipPadding (slice buf pos stop) next (stop - pos) 1 with
      | error fault => exact Setoid.refl fault
      | ok answer => rfl
    simp only [if_neg zero]
    cases checkType code enabled with
    | error fault => exact Setoid.refl fault
    | ok row =>
      simp only [ok_bind]
      -- The fields agree, and the checks behind them are on differences of positions.
      have agree := (decodeFields row.name code).run_within bound ordered within
      rcases agree.outcomes with ⟨fault, other, here, there, near⟩ | ⟨answer, here, there⟩
      · have alone := map_eq_error.mp there
        rw [here, alone]
        exact near
      · obtain ⟨fields, alone, rfl⟩ := map_eq_ok.mp there
        have span : pos + fields.2 - pos = fields.2 - 0 := by omega
        have past : pos + fields.2 > stop ↔ fields.2 > stop - pos := by omega
        simp only [here, alone, ok_bind, span, past]
        split
        · exact Setoid.refl _
        · simp only [ok_bind]
          split
          · exact Setoid.refl _
          · simp only [ok_bind]
            split
            · exact Setoid.refl _
            · rfl

section Past

variable {α β : Type}

/-- A sequence of readers fails where its first reader does. -/
theorem run_bind_error {first : Scan Failure α} {after : α → Scan Failure β} {fault : Failure}
    (failed : first.run buf pos stop = .error fault) :
    (first >>= after).run buf pos stop = .error fault := by
  -- The second reader is never run.
  show first.run buf pos stop >>= _ = _
  rw [failed, error_bind]

variable (past : stop < pos)

include past

/-- No integer is read behind the end of a window. -/
theorem readV_past : readV.run buf pos stop = .error truncatedFrame := by
  -- The position is compared with the stop before anything is decoded.
  show runV buf pos stop = _
  rw [runV, raiseIf, if_pos (show pos ≥ stop by omega), error_bind]

/-- No byte is read behind the end of a window. -/
theorem octet_past : octet.run buf pos stop = .error truncatedFrame := by
  -- A byte is asked for before it is read.
  show runOctet buf pos stop = _
  rw [runOctet, need, raiseIf, if_pos (show pos + 1 > stop by omega), error_bind]

/-- No bytes are taken behind the end of a window. -/
theorem take_past (count : Nat) : (take count).run buf pos stop = .error truncatedFrame := by
  -- The bytes are asked for before they are cut off.
  show runTake count buf pos stop = _
  rw [runTake, need, raiseIf, if_pos (show pos + count > stop by omega), error_bind]

end Past

/-- The names of the frames whose types take more than one byte. -/
def wideNames : List FrameName :=
  [.qxTransportParameters, .qxPing, .goaway, .priorityUpdate, .pipeJoin, .pipeAck, .pipeLane,
    .pipePing, .pipeAbandon, .pipeStatus]

/-- Behind the stop, no fields of a frame with such a type are read. -/
theorem decodeFields_past {name : FrameName} (wide : name ∈ wideNames) (past : stop < pos) :
    (decodeFields name code).run buf pos stop = .error truncatedFrame ∨
      name = .pipePing ∧ (decodeFields name code).run buf pos stop = .ok (.pipePing, pos) := by
  -- Every such frame begins with an integer, a byte or a key, or has no fields at all.
  simp only [wideNames, List.mem_cons, List.not_mem_nil, or_false] at wide
  rcases wide with rfl | rfl | rfl | rfl | rfl | rfl | rfl | rfl | rfl | rfl
  · exact .inl (run_bind_error (run_bind_error (readV_past past)))
  · exact .inl (run_bind_error (readV_past past))
  · exact .inl (run_bind_error (readV_past past))
  · exact .inl (run_bind_error (readV_past past))
  · exact .inl (run_bind_error (octet_past past))
  · exact .inl (run_bind_error (readV_past past))
  · exact .inl (run_bind_error (take_past past _))
  · exact .inr ⟨rfl, rfl⟩
  · exact .inl (run_bind_error (readV_past past))
  · exact .inl (run_bind_error (readV_past past))

/-- A type in its shortest form that ends behind the stop is a frame encoding error. -/
theorem decodeFrame_straddling (ordered : pos < stop)
    (typed : decodeVarint buf pos FE = .ok (code, next, width)) (past : stop < next)
    (minimal : varintLen code = .ok width) :
    ∃ reason, decodeFrame buf pos stop enabled limit = .error (.decodeError FE reason) := by
  obtain ⟨legal, rfl, -⟩ := decodeVarint_eq_ok.mp typed
  have shortest := (varintLen_eq_ok.mp minimal).2
  -- The type takes more than one byte, so it is none of the types below 64.
  have large : 64 ≤ code := by
    by_contra small
    have one : varintShortest code = 1 := if_pos (by simpa using small)
    omega
  have nonzero : code ≠ 0 := by omega
  simp only [decodeFrame, typed, ok_bind, minimal, raiseIf, ne_eq, not_true_eq_false, if_false,
    if_neg nonzero]
  cases found : frameByType code with
  | none =>
    rw [checkType, found]
    exact ⟨_, rfl⟩
  | some row =>
    obtain ⟨member, above, below⟩ := frameByType_range found
    have table : ∀ row ∈ frameTypes, 64 ≤ row.last → row.name ∈ wideNames := by decide
    have wide := table row member (by omega)
    have other : row.name ≠ .datagram := by
      intro datagram
      rw [datagram] at wide
      exact absurd wide (by decide)
    cases checked : checkType code enabled with
    | error fault =>
      -- Only the gate of datagrams raises another error.
      simp only [checkType, found, checkGate, if_neg other, bind_eq_error, raiseIf_eq_error,
        pure_ok] at checked
      rcases checked with ⟨-, rfl⟩ | ⟨_, -, ⟨-, rfl⟩ | ⟨_, -, none⟩⟩
      · exact ⟨_, rfl⟩
      · exact ⟨_, rfl⟩
      · cases none
    | ok same =>
      obtain ⟨again, -, -⟩ := checkType_eq_ok.mp checked
      rw [found, Option.some.injEq] at again
      subst again
      simp only [ok_bind]
      rcases @decodeFields_past buf _ stop code row.name wide past with failed | ⟨ping, read⟩
      · rw [failed]
        exact ⟨_, rfl⟩
      · -- A frame without fields is refused for its type alone.
        have short : ¬ (row.name = .pipeJoin ∧ pos + width - pos > Limits.maxJoinFrameBytes) := by
          rw [ping]
          simp
        rw [read]
        simp only [ok_bind, if_neg short, if_pos past]
        exact ⟨_, rfl⟩

/-- Two outcomes are the same frame and position, or decode errors with the same code. -/
def SameOutcome (left right : Except Failure (Frame × Nat)) : Prop :=
  (∃ answer, left = .ok answer ∧ right = .ok answer) ∨
  -- Only the wording of the reasons may differ.
  ∃ code reason other, left = .error (.decodeError code reason) ∧
    right = .error (.decodeError code other)

/-- Two outcomes are the same in either order. -/
theorem SameOutcome.symm {left right : Except Failure (Frame × Nat)}
    (same : SameOutcome left right) : SameOutcome right left := by
  -- Both sides have the same answer, or errors of the same code.
  rcases same with ⟨answer, first, second⟩ | ⟨code, reason, other, first, second⟩
  · exact .inl ⟨answer, second, first⟩
  · exact .inr ⟨code, other, reason, second, first⟩

/-- Outcomes that are the same as one are the same. -/
theorem SameOutcome.trans {left middle right : Except Failure (Frame × Nat)}
    (same : SameOutcome left middle) (again : SameOutcome middle right) :
    SameOutcome left right := by
  -- What stands in the middle is one answer or one error, and both sides agree with it.
  rcases same with ⟨answer, rfl, rfl⟩ | ⟨code, reason, other, rfl, rfl⟩
  · rcases again with ⟨_, found, rfl⟩ | ⟨_, _, _, none, -⟩
    · exact .inl ⟨_, found, rfl⟩
    · cases none
  · rcases again with ⟨_, none, -⟩ | ⟨_, _, last, failed, rfl⟩
    · cases none
    · cases failed
      exact .inr ⟨_, _, _, rfl, rfl⟩

/-- Outcomes that agree are the same, once one of them fails with decode errors only. -/
theorem Agree.sameOutcome {left right : Except Failure (Frame × Nat)} (agree : Agree left right)
    (faults : Faults right fun fault => ∃ code, fault.HasCode code) : SameOutcome left right := by
  rcases agree.outcomes with ⟨fault, other, rfl, rfl, near⟩ | ⟨answer, rfl, rfl⟩
  · obtain ⟨code, reason, rfl⟩ := faults other rfl
    -- A failure that counts as a decode error is one with the same code.
    have plain : fault.unworded = (Failure.decodeError code reason).unworded := near
    cases fault with
    | decodeError kind words =>
      simp only [Failure.unworded, Failure.decodeError.injEq, and_true] at plain
      subst plain
      exact .inr ⟨_, _, _, rfl, rfl⟩
    | _ => cases plain
  · exact .inl ⟨answer, rfl, rfl⟩

/-- A type that can be read at a position ends before a stop, or is in its shortest form. -/
def TypeWithin (buf : Bytes) (pos stop : Nat) : Prop :=
  ∀ code next width, decodeVarint buf pos = .ok (code, next, width) →
    next ≤ stop ∨ varintLen code = .ok width

/-- A frame is decoded as in its window on its own exactly when its type does not leave it wide. -/
theorem decodeFrame_sameOutcome_iff (ordered : pos < stop) (within : stop ≤ buf.length) :
    SameOutcome (decodeFrame buf pos stop enabled limit)
      (advance pos (decodeFrame (slice buf pos stop) 0 (stop - pos) enabled limit)) ↔
    TypeWithin buf pos stop := by
  have long := @slice_length buf pos stop within
  cases typed : decodeVarint (slice buf pos stop) 0 FE with
  | ok answer =>
    rcases answer with ⟨code, next, width⟩
    have bound := (decodeVarint_forward typed).2
    have agree := @decodeFrame_inside enabled limit _ _ _ _ _ _ (Nat.le_of_lt ordered) within typed
    have same := Agree.sameOutcome agree ?_
    · -- The type ends in the window, so both sides hold.
      refine ⟨fun _ other last wide read => ?_, fun _ => same⟩
      rw [decodeVarint_window typed] at read
      cases read
      exact .inl (by omega)
    · refine Faults.map _ ?_
      rw [← long]
      intro fault failed
      obtain ⟨code, reason, rfl, -⟩ := (decodeFrame_faults _ _ _ fault failed).isProtocol
      exact ⟨code, reason, rfl⟩
  | error fault =>
    -- On its own the window is too short for its type.
    have alone := @decodeFrame_untyped enabled limit _ _ typed (stop - pos)
    have words := (decodeVarint_eq_error.mp typed).1
    rw [alone, words]
    cases here : decodeVarint buf pos FE with
    | error other =>
      have failed : decodeFrame buf pos stop enabled limit = .error other := by
        rw [decodeFrame, here, error_bind]
      rw [failed, (decodeVarint_eq_error.mp here).1]
      refine ⟨fun _ code next width read => ?_, fun _ => .inr ⟨_, _, _, rfl, rfl⟩⟩
      rw [here] at read
      cases read
    | ok answer =>
      rcases answer with ⟨code, next, width⟩
      have past := decodeVarint_leaves here typed
      by_cases minimal : varintLen code = .ok width
      · -- The type is not finished in the window, and too large for any shorter form.
        have both := @decodeFrame_straddling enabled limit _ _ _ _ _ _ ordered here past minimal
        rcases both with ⟨reason, failed⟩
        rw [failed]
        refine ⟨fun _ other last wide read => ?_, fun _ => .inr ⟨_, _, _, rfl, rfl⟩⟩
        rw [here] at read
        cases read
        exact .inr minimal
      · -- In place the form is seen to be too wide, and the window alone is too short for it.
        have failed : decodeFrame buf pos stop enabled limit =
            .error (.decodeError PV "frame type not minimally encoded") := by
          have measured := varintLen_legal (decodeVarint_eq_ok.mp here).1
          have wide : width ≠ varintShortest code := by
            intro same
            rw [same] at minimal
            exact minimal measured
          simp only [decodeFrame, here, ok_bind, measured, raiseIf, if_pos wide, error_bind]
        rw [failed]
        constructor
        · intro same
          rcases same with ⟨_, none, -⟩ | ⟨_, _, _, left, right⟩
          · cases none
          · cases left
            cases right
        · intro settled
          rcases settled code next width here with inside | shortest
          · omega
          · exact absurd shortest minimal

/-- A frame decoded from a window is decoded from the window on its own. -/
theorem decodeFrame_alone (ordered : pos < stop) (within : stop ≤ buf.length) {f : Frame}
    (decoded : decodeFrame buf pos stop enabled limit = .ok (f, next)) : ∃ inner,
      decodeFrame (slice buf pos stop) 0 (slice buf pos stop).length enabled limit =
        .ok (f, inner) ∧ next = pos + inner := by
  -- A type that is accepted is in its shortest form, so the window settles it.
  have typed : TypeWithin buf pos stop := by
    intro code behind width read
    simp only [decodeFrame, read, ok_bind, bind_eq_ok] at decoded
    rcases decoded with ⟨minimal, measured, _, short, -⟩
    have same := Decidable.not_not.mp (raiseIf_eq_ok.mp short)
    exact .inr (by rw [same, measured])
  have same := (@decodeFrame_sameOutcome_iff enabled limit _ _ _ ordered within).mpr typed
  rw [slice_length within]
  rcases same with ⟨answer, here, there⟩ | ⟨_, _, _, failed, -⟩
  · rw [decoded] at here
    cases here
    obtain ⟨⟨_, inner⟩, alone, moved⟩ := map_eq_ok.mp there
    cases moved
    exact ⟨inner, alone, rfl⟩
  · rw [decoded] at failed
    cases failed

/-- A window followed by some bytes begins with a type that ends in it or is in its shortest form. -/
def TypeStays (window tail : Bytes) : Prop :=
  ∀ code next width, decodeVarint (window ++ tail) 0 = .ok (code, next, width) →
    next ≤ window.length ∨ varintLen code = .ok width

/-- A window holds its type, or makes it too large for any shorter form. -/
def TypeSettled (window : Bytes) : Prop :=
  -- Of all bytes that can follow, zeros make the smallest type.
  TypeStays window (List.replicate 8 0)

/-- A form that starts in some bytes and does not end there consists of them and of further bytes. -/
theorem varintForm_continues {held tail rest : Bytes} (legal : VarintLegal code width)
    (outside : held.length < width) (continues : held ++ tail = varintForm code width ++ rest) :
    ∃ completing, varintForm code width = held ++ completing := by
  -- One of the two parts is a front of the other, and the form is the longer one.
  rcases List.append_eq_append_iff.mp continues with ⟨completing, form, -⟩ | ⟨back, held, -⟩
  · exact ⟨completing, form⟩
  · have wide := varintForm_length legal
    have long := congrArg List.length held
    rw [List.length_append, wide] at long
    omega

/-- Zeros in place of the bytes that complete a form make a number that is no larger. -/
theorem decodeVarint_zeros {first : UInt8} {held completing : Bytes}
    (legal : VarintLegal code width)
    (whole : varintForm code width = first :: (held ++ completing)) : ∃ smaller ≤ code,
      decodeVarint (first :: held ++ List.replicate 8 0) 0 = .ok (smaller, 0 + width, width) := by
  rcases varintForm_digits legal whole with ⟨announced, value⟩
  have wide := varintForm_length legal
  rw [whole, List.length_cons, List.length_append] at wide
  -- As many zeros as there were bytes complete a form of the same width.
  have filled : (held ++ List.replicate completing.length (0 : UInt8)).length + 1 =
      announcedWidth first := by
    rw [List.length_append, List.length_replicate]
    omega
  obtain ⟨lawful, form⟩ := form_of_first first _ filled
  rw [← announced] at lawful form
  have few : completing.length ≤ 8 := by
    have widths := varint_width legal
    omega
  refine ⟨foldBytes (first.toNat % 64) (held ++ List.replicate completing.length 0), ?_, ?_⟩
  · -- The digits in front are the same, and none is smaller than zero.
    rw [value, foldBytes_append, foldBytes_append]
    exact foldBytes_replicate_le _ _
  · refine decodeVarint_eq_ok.mpr
      ⟨lawful, rfl, List.replicate (8 - completing.length) 0, ?_⟩
    rw [form, List.drop_zero, List.cons_append, List.cons_append, List.append_assoc,
      List.replicate_append_replicate, Nat.add_sub_cancel' few]

/-- Whatever follows a window that settles its type, the type stays in it or is not too wide. -/
theorem TypeSettled.stays {window : Bytes} (settled : TypeSettled window) (some : window ≠ [])
    (tail : Bytes) : TypeStays window tail := by
  intro code next width read
  rcases decodeVarint_eq_ok.mp read with ⟨legal, rfl, rest, continues⟩
  rw [List.drop_zero] at continues
  by_cases inside : 0 + width ≤ window.length
  · exact .inl inside
  obtain ⟨completing, whole⟩ := varintForm_continues legal (by omega) continues
  obtain ⟨first, held, rfl⟩ := List.exists_cons_of_ne_nil some
  -- The window is settled by the smallest type that it can begin.
  obtain ⟨smallest, smaller, zeros⟩ := decodeVarint_zeros legal whole
  rcases settled _ _ _ zeros with within | shortest
  · exact absurd within inside
  · -- The type is no smaller, so no shorter form holds it either.
    have rising : varintShortest smallest ≤ varintShortest code :=
      varintFormat.shortest_mono smaller legal
    have least : varintShortest code ≤ width := varintFormat.shortest_le legal
    have reached := (varintLen_eq_ok.mp shortest).2
    have same : width = varintShortest code := by omega
    rw [same]
    exact .inr (varintLen_legal legal)

/-- A type at a position is one of the window there, followed by the rest of the buffer. -/
theorem typeWithin_iff (ordered : pos ≤ stop) (within : stop ≤ buf.length) :
    TypeWithin buf pos stop ↔ TypeStays (slice buf pos stop) (buf.drop stop) := by
  -- The window and what follows it make up the buffer from the position on.
  have rejoin := @slice_append_drop buf pos stop ordered
  have long := @slice_length buf pos stop within
  unfold TypeWithin TypeStays
  rw [rejoin, long]
  simp only [decodeVarint_drop buf pos, map_eq_ok, Prod.mk.injEq]
  constructor
  · intro settled code next width read
    rcases settled code _ width ⟨_, read, rfl, rfl, rfl⟩ with inside | shortest
    · have moved : pos + next ≤ stop := inside
      exact .inl (by omega)
    · exact .inr shortest
  · intro stays code next width read
    rcases read with ⟨⟨_, inner, _⟩, read, rfl, rfl, rfl⟩
    rcases stays _ _ _ read with inside | shortest
    · exact .inl (show pos + inner ≤ stop by omega)
    · exact .inr shortest

/-- A frame is decoded from its window: as there on its own, whatever follows, and up to its end. -/
structure ReadsWindow (enabled : Gates) (limit : Option Nat) (buf : Bytes) (pos stop : Nat) :
    Prop where
  /-- The window on its own gives the same frame, at a position moved by that of the window. -/
  alone : SameOutcome (decodeFrame buf pos stop enabled limit)
    (advance pos (decodeFrame (slice buf pos stop) 0 (stop - pos) enabled limit))
  /-- A buffer with the same bytes in the window gives the same frame. -/
  uninfluenced : ∀ other : Bytes, stop ≤ other.length → slice other pos stop = slice buf pos stop →
    SameOutcome (decodeFrame other pos stop enabled limit) (decodeFrame buf pos stop enabled limit)
  /-- A decoded frame ends in the window. -/
  ends : ∀ f next, decodeFrame buf pos stop enabled limit = .ok (f, next) → pos < next ∧ next ≤ stop

/-- A frame is decoded from its window exactly when the window settles its type. -/
theorem decodeFrame_window_iff (enabled : Gates) (limit : Option Nat) (buf : Bytes)
    (pos stop : Nat) (ordered : pos < stop) (within : stop ≤ buf.length) :
    ReadsWindow enabled limit buf pos stop ↔ TypeSettled (slice buf pos stop) := by
  have long := @slice_length buf pos stop within
  constructor
  · intro reads
    -- A buffer in which zeros follow the window is decoded as the window on its own.
    let other := buf.take stop ++ List.replicate 8 (0 : UInt8)
    have front : (buf.take stop).length = stop := List.length_take_of_le within
    have reaches : stop ≤ other.length := by
      rw [List.length_append, front]
      omega
    have kept : slice other pos stop = slice buf pos stop := by
      have cut : slice other pos stop = ((buf.take stop).drop pos).take (stop - pos) := by
        rw [slice, List.drop_append_of_le_length (by omega),
          List.take_append_of_le_length (by rw [List.length_drop]; omega)]
      rw [cut, slice, List.drop_take, List.take_take, Nat.min_self]
    have same := (reads.uninfluenced other reaches kept).trans reads.alone
    rw [← kept] at same
    have stays := (typeWithin_iff (Nat.le_of_lt ordered) reaches).mp
      ((decodeFrame_sameOutcome_iff ordered reaches).mp same)
    rwa [kept, List.drop_left' front] at stays
  · intro settled
    have some : slice buf pos stop ≠ [] := by
      intro empty
      rw [empty, List.length_nil] at long
      omega
    -- Whatever the buffer holds behind the window, the frame is that of the window on its own.
    have each : ∀ other : Bytes, stop ≤ other.length → slice other pos stop = slice buf pos stop →
        SameOutcome (decodeFrame other pos stop enabled limit)
          (advance pos (decodeFrame (slice buf pos stop) 0 (stop - pos) enabled limit)) := by
      intro other reaches same
      have inner := settled.stays some (other.drop stop)
      rw [← same] at inner
      have typed := (typeWithin_iff (Nat.le_of_lt ordered) reaches).mpr inner
      have outcome := (@decodeFrame_sameOutcome_iff enabled limit _ _ _ ordered reaches).mpr typed
      rwa [same] at outcome
    have alone := each buf within rfl
    refine ⟨alone, fun other reaches same => (each other reaches same).trans alone.symm, ?_⟩
    intro f next decoded
    rcases alone with ⟨answer, found, moved⟩ | ⟨_, _, _, failed, -⟩
    · rw [decoded] at found
      cases found
      obtain ⟨⟨_, inner⟩, read, same⟩ := map_eq_ok.mp moved
      cases same
      rw [← long] at read
      have forward := decodeFrame_forward read
      rw [long] at forward
      simp only
      omega
    · rw [decoded] at failed
      cases failed

/-- A window that holds its type, between bytes that belong to other frames. -/
theorem decodeFrame_window_within : ReadsWindow none none [0x10, 0x10, 0x05, 0x40] 1 3 := by
  refine (decodeFrame_window_iff none none _ 1 3 (by decide) (by decide)).mpr ?_
  intro code next width read
  have typed : decodeVarint (slice [0x10, 0x10, 0x05, 0x40] 1 3 ++ List.replicate 8 0) 0 =
      .ok (16, 1, 1) := rfl
  rw [typed] at read
  cases read
  exact .inl (by decide)

/-- The byte behind this window decides which error a frame is refused with. -/
theorem decodeFrame_window_fails : ¬ ReadsWindow none none [0x40, 0x01] 0 1 := by
  -- In place, the type is seen to be in a wider form than it needs.
  intro reads
  have whole : decodeFrame [0x40, 0x01] 0 1 none none =
      .error (.decodeError PV "frame type not minimally encoded") := rfl
  have alone : decodeFrame (slice [0x40, 0x01] 0 1) 0 1 none none =
      .error (.decodeError FE "truncated varint") := rfl
  rcases reads.alone with ⟨_, none, -⟩ | ⟨_, _, _, left, right⟩
  · rw [whole] at none
    cases none
  · rw [whole] at left
    rw [alone] at right
    cases left
    cases right

end Zmux
