import Zmux.Proofs.FrameDecoding

/-! A decoded frame is encoded by the shortest spelling of its layout. -/

namespace Zmux

open Wire

/-- Integers that fit are encoded in their shortest forms. -/
theorem vs_eq_ok {values : List Nat} (fits : (nums values).Fits varintFormat) :
    vs values = .ok ((nums values).short varintFormat) := by
  -- The induction is on the integers, each written in its shortest form.
  induction values with
  | nil => rfl
  | cons value values ih =>
    obtain ⟨legal, fits⟩ := fits
    simp only [vs, v_legal legal, ih fits, ok_bind, pure_ok]
    rfl

/-- Data that fits is encoded with its length in front of it. -/
theorem counted_eq_ok {data : Bytes} (fits : (dataLayout true data).Fits varintFormat) :
    counted data = .ok ((dataLayout true data).short varintFormat) := by
  -- The count written is the length of the data itself.
  obtain ⟨-, legal, -⟩ := fits
  simp only [Layout.short, List.append_nil] at legal
  simp only [counted, v_legal legal, ok_bind, pure_ok, dataLayout, if_true, Layout.short,
    List.append_nil]
  rfl

/-- Data that fits is encoded with its length or without it. -/
theorem encodeData_eq_ok {hasLen : Bool} {data : Bytes}
    (fits : (dataLayout hasLen data).Fits varintFormat) :
    encodeData hasLen data = .ok ((dataLayout hasLen data).short varintFormat) := by
  -- Without a count the data is its own spelling.
  cases hasLen with
  | true => exact counted_eq_ok fits
  | false => simp [encodeData, dataLayout, Layout.short]

/-- An integer that fits is encoded where it is sent. -/
theorem encodeWhen_eq_ok {sent : Bool} {number : Nat}
    (fits : (if sent then nums [number] else .done).Fits varintFormat) :
    encodeWhen sent (v number) =
      .ok ((if sent then nums [number] else .done).short varintFormat) := by
  -- A field that is not sent is spelled by nothing.
  cases sent with
  | true =>
    rw [if_pos rfl] at fits ⊢
    rw [encodeWhen, if_pos rfl, v_legal fits.1]
    simp [nums, Layout.short, varintFormat]
  | false => rfl

/-- A direction always has its bits. -/
theorem DirectionField.code_eq_ok (field : DirectionField) : field.code = .ok field.value := by
  -- The table of the encoder is the function `Direction.code`.
  cases field with
  | named direction => cases direction <;> rfl
  | bits value => rfl

/-- A status always has its number. -/
theorem StatusField.code_eq_ok (field : StatusField) : field.code = .ok field.value := by
  -- The table of the encoder is the function `PipeStatus.code`.
  cases field with
  | named status => cases status <;> rfl
  | number value => rfl

/-- The flags of a decoded join are one byte. -/
theorem Join.Decoded.flags_lt {join : Join} (decoded : join.Decoded) : join.flags < 256 := by
  -- A decoded join names its direction and reserves no bits.
  obtain ⟨direction, named⟩ := decoded.direction
  obtain ⟨carrierBound, bound⟩ := decoded.carrierBound
  obtain ⟨standby, held⟩ := decoded.standby
  have small := (@joinFlags_write direction carrierBound standby).1
  simpa [Join.flags, named, bound, held, decoded.reservedFlags, DirectionField.value] using small

/-- A join is encoded up to its token, then its token. -/
theorem encodeJoinBody_eq_ok {join : Join} (few : join.locator.length < 256)
    (small : join.flags < 256) (fits : join.body.Fits varintFormat) :
    encodeJoinBody join = .ok (join.body.short varintFormat ++ join.token) := by
  -- The encoder writes each field in the order in which the layout has it.
  obtain ⟨pipe, fate, priority, -⟩ := fits
  have flags := oneByte_eq_ok small
  unfold Join.flags at flags
  simp only [encodeJoinBody, join.direction.code_eq_ok, ok_bind, oneByte_eq_ok few, v_legal pipe,
    flags, v_legal fate, v_legal priority, pure_ok, Join.body, Layout.short, nums]
  simp [varintFormat, Join.flags]

/-- The fields of a decoded frame are encoded by the shortest spelling of their layout. -/
theorem encodeFields_eq_ok {f : Frame} {code : Nat} (decoded : f.Decoded)
    (flagged : f.Flagged code) (named : f.name ≠ none) (fits : f.fields.Fits varintFormat) :
    encodeFields f code = .ok (f.fields.short varintFormat) := by
  -- The shape of the frame selects both the encoder's branch and the layout.
  cases f with
  | raw | repeated | padding => exact absurd rfl named
  | stream id off data fin hasOff hasLen =>
    obtain ⟨rfl, rfl, rfl⟩ := flagged
    obtain ⟨first, fits⟩ := fits
    obtain ⟨second, third⟩ := Layout.fits_append.mp fits
    simp only [Option.getD_some] at second third
    simp only [encodeFields, v_legal first, encodeWhen_eq_ok second, encodeData_eq_ok third,
      ok_bind, pure_ok, Frame.fields, Option.getD_some, Layout.short, Layout.short_append,
      List.append_assoc]
    rfl
  -- These frames are plain integers.
  | resetStream | resetStreamAt | stopSending | maxData | maxStreamData | maxStreams | dataBlocked
  | streamDataBlocked | streamsBlocked | qxPing | goaway | pipeAck | pipeAbandon =>
    exact vs_eq_ok fits
  | connectionClose app cause frameType reason =>
    obtain ⟨first, fits⟩ := fits
    obtain ⟨second, third⟩ := Layout.fits_append.mp fits
    -- The encoder asks the flag the other way round than the layout does.
    have same : (if app.getD false then .done else nums [frameType.getD 0]) =
        (if (!app.getD false) then nums [frameType.getD 0] else .done) := by
      cases app.getD false <;> rfl
    rw [same] at second
    simp only [encodeFields, v_legal first, encodeWhen_eq_ok second, counted_eq_ok third, ok_bind,
      pure_ok, Frame.fields, same, Layout.short, Layout.short_append, List.append_assoc]
    rfl
  | datagram data hasLen => exact encodeData_eq_ok fits
  | qxTransportParameters block =>
    cases block with
    | raw => exact decoded.elim
    | params params =>
      obtain ⟨inner, legal, -⟩ := fits
      simp only [encodeFields, TpBlock.encode, encodeTps_eq_ok decoded.each inner, ok_bind, counted,
        v_legal legal, pure_ok, Frame.fields, Layout.short, List.append_nil]
      rfl
  | priorityUpdate id seq urgency incremental =>
    cases incremental with
    | none => exact decoded.elim
    | some incremental =>
      have bound : urgency ≤ 7 := decoded
      -- The byte made of a small urgency is in range, so both checks pass.
      have small := (@priorityBits_write urgency incremental bound).1
      have byte := oneByte_eq_ok small
      unfold priorityBits at byte
      have accepted : ¬ ¬ (0 ≤ urgency ∧ urgency ≤ 7) := not_not.mpr ⟨Nat.zero_le _, bound⟩
      obtain ⟨numbers, -⟩ := Layout.fits_append.mp fits
      simp only [encodeFields, vs_eq_ok numbers, priorityByte, raiseIf, if_neg accepted, ok_bind,
        byte, pure_ok, Frame.fields, Layout.short_append, Layout.short, List.append_nil]
      rfl
  | pipeJoin join =>
    obtain ⟨body, -⟩ := Layout.fits_append.mp fits
    -- A decoded locator is far shorter than a byte can count.
    have few : join.locator.length < 256 := Nat.lt_of_le_of_lt decoded.locator.2 (by decide)
    simp only [encodeFields, encodeJoinBody_eq_ok few decoded.flags_lt body, Frame.fields,
      Layout.short_append, Layout.short, List.append_nil]
  | pipeLane key pipe lane =>
    have long : key.length = Limits.laneKeyBytes := decoded
    simp only [encodeFields, laneKey_eq_ok long, vs_eq_ok fits, ok_bind, pure_ok, Frame.fields,
      Layout.short]
  | pipePing => rfl
  | pipeStatus pipe seq status priority =>
    simp only [encodeFields, status.code_eq_ok, ok_bind]
    exact vs_eq_ok fits

/-- A decoded frame is encoded by the shortest spelling of its layout. -/
theorem encodeFrame_eq_ok {f : Frame} (decoded : f.Decoded) (fits : f.layout.Fits varintFormat) :
    encodeFrame f = .ok (f.layout.short varintFormat) := by
  -- Padding is written as it is laid out, and any other frame behind its type.
  rcases decoded.cases with ⟨count, rfl, -⟩ | ⟨name, named⟩
  · simp [encodeFrame, Frame.layout, Layout.short]
  · obtain ⟨coded, flagged, -, legal, -⟩ := decoded.typed named
    have some : f.name ≠ none := by simp [named]
    rw [typed_layout named] at fits ⊢
    have fields := encodeFields_eq_ok decoded flagged some fits
    have written : encodeFrame f = (do
        let code ← typeCode f
        let head ← encodeVarint code
        let fields ← encodeFields f code
        return head ++ fields) := by
      cases f with
      | raw | repeated | padding => cases named
      | _ => rfl
    rw [written, coded, ok_bind, encodeVarint_shortest (legal_shortest_iff.mp legal), ok_bind,
      fields, ok_bind, pure_ok, Layout.short]

/-- Decoded frames are encoded by the shortest spelling of their payload. -/
theorem encodeFrames_eq_ok {fs : List Frame} (decoded : ∀ f ∈ fs, f.Decoded)
    (fits : (framesLayout fs).Fits varintFormat) :
    encodeFrames fs = .ok ((framesLayout fs).short varintFormat) := by
  -- The induction is on the frames, whose spellings follow one another.
  induction fs with
  | nil => rfl
  | cons f fs ih =>
    obtain ⟨head, tail⟩ := Layout.fits_append.mp fits
    have first := encodeFrame_eq_ok (decoded f List.mem_cons_self) head
    have rest := ih (fun other member => decoded other (List.mem_cons_of_mem _ member)) tail
    simp only [encodeFrames, first, rest, ok_bind, pure_ok, framesLayout, Layout.short_append]

end Zmux
