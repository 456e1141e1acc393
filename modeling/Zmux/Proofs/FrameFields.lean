import Zmux.Proofs.FrameLayout

/-! The fields of each frame are read exactly where they are spelled. -/

namespace Zmux

open Wire

/-- Data behind its byte count is read where it is spelled. -/
theorem counted_on {window left data : Bytes} :
    (readV >>= take).on window = .ok (data, left) ↔
      Begins varintFormat data.length window (data ++ left) := by
  -- The count is read as an integer, and the bytes behind it are as many as it says.
  simp only [Scan.on_bind, bind_eq_ok, Prod.exists, readV_on, take_on]
  constructor
  · intro read
    obtain ⟨count, behind, begins, rfl, rfl⟩ := read
    exact begins
  · intro begins
    exact ⟨_, _, begins, rfl, rfl⟩

/-- Counted data is spelled as its byte count and itself. -/
theorem starts_counted_iff {window left data : Bytes} :
    Starts varintFormat (dataLayout true data) window left ↔
      Begins varintFormat data.length window (data ++ left) := by
  -- The literal data fills the part behind the count.
  simp [dataLayout]

/-- Data is read where it is laid out, and without a byte count it takes everything. -/
theorem readData_on {hasLen : Bool} {window left data : Bytes} :
    (readData hasLen).on window = .ok (data, left) ↔
      Starts varintFormat (dataLayout hasLen data) window left ∧ (hasLen = false → left = []) := by
  -- The two ways of sending data are the two values of the flag.
  cases hasLen with
  | true =>
    have counted : readData true = (readV >>= take) := rfl
    rw [counted, counted_on, starts_counted_iff]
    simp
  | false =>
    have whole : readData false = rest := rfl
    simp only [whole, rest_on, Except.ok.injEq, Prod.mk.injEq, dataLayout, Bool.false_eq_true,
      if_false, starts_bytes_iff, starts_done_iff, forall_const]
    constructor
    · intro same
      obtain ⟨rfl, rfl⟩ := same
      exact ⟨⟨[], by simp, rfl⟩, rfl⟩
    · intro same
      obtain ⟨⟨_, rfl, rfl⟩, rfl⟩ := same
      simp

/-- A field is read where it is spelled, and nowhere when it is not sent. -/
theorem readWhen_on {sent : Bool} {window left : Bytes} {value : Nat} :
    (readWhen sent readV 0).on window = .ok (value, left) ↔ (sent = false → value = 0) ∧
      Starts varintFormat (if sent then nums [value] else .done) window left := by
  -- A field that is not sent is read as zero without moving.
  cases sent with
  | true => simp [readWhen, readV_on, nums]
  | false =>
    simp only [readWhen, Bool.false_eq_true, if_false, Scan.on_pure, Except.ok.injEq,
      Prod.mk.injEq, starts_done_iff, forall_const]
    grind

/-- The type of the frame at fault is read for the transport only. -/
theorem readCause_on {app : Bool} {window left : Bytes} {frameType : Option Nat} :
    (readWhen (!app) (some <$> readV) none).on window = .ok (frameType, left) ↔
      frameType.isNone = app ∧
      Starts varintFormat (if app then .done else nums [frameType.getD 0]) window left := by
  -- Whether the type of the frame at fault is there is the flag, so it is known from the frame
  -- too.
  have mapped : (some <$> readV) = (readV >>= fun value => pure (some value)) := rfl
  cases app with
  | true => cases frameType <;> simp [readWhen]
  | false => cases frameType <;> simp [readWhen, mapped, readV_on, nums]

variable {code : Nat} {f : Frame} {window left : Bytes}

/-- The fields of STREAM are read from the bytes of a decoded frame, and from no others. -/
theorem readStream_on : (readStream code).on window = .ok (f, left) ↔ ∃ id off data,
    f = .stream id (some off) (some data) (some (hasBit code finBit)) (some (hasBit code offBit))
      (some (hasBit code lenBit)) ∧ f.Decoded ∧ Starts varintFormat f.fields window left ∧
    (hasBit code lenBit = false → left = []) := by
  -- The offset is present or not by its bit, and the data ends as its own bit says.
  simp only [readStream, Scan.on_bind, bind_eq_ok, Prod.exists, readV_on, readData_on, readWhen_on,
    Scan.on_failIf_eq_ok, Scan.on_pure, Except.ok.injEq, Prod.mk.injEq]
  constructor
  · intro read
    obtain ⟨id, _, first, off, _, ⟨zero, second⟩, data, _, ⟨third, ended⟩, _, _, ⟨fits, rfl⟩,
      rfl, rfl⟩ := read
    -- The pieces meet at the positions in between, which the layout leaves open.
    refine ⟨id, off, data, rfl, ⟨zero, by omega⟩, ?_, ended⟩
    exact starts_num_begins.mpr ⟨_, first, starts_append_iff.mpr ⟨_, second, third⟩⟩
  · intro spelled
    obtain ⟨id, off, data, rfl, ⟨zero, fits⟩, starts, ended⟩ := spelled
    obtain ⟨_, first, starts⟩ := starts_num_begins.mp starts
    obtain ⟨_, second, third⟩ := starts_append_iff.mp starts
    exact ⟨id, _, first, off, _, ⟨zero, second⟩, data, _, ⟨third, ended⟩, (), _,
      ⟨by omega, rfl⟩, rfl, rfl⟩

/-- The fields of CONNECTION_CLOSE are read from the bytes of a decoded frame, and from no others. -/
theorem readConnectionClose_on : (readConnectionClose code).on window = .ok (f, left) ↔
    ∃ cause frameType reason,
      f = .connectionClose (some (decide (code = 0x1D))) cause frameType (some reason) ∧
      f.Decoded ∧ Starts varintFormat f.fields window left := by
  -- The reason always has a count, so nothing runs to the end of the record.
  simp only [readConnectionClose, Scan.on_bind, bind_eq_ok, Prod.exists, readV_on, readData_on,
    readCause_on, Scan.on_pure, Except.ok.injEq, Prod.mk.injEq]
  constructor
  · intro read
    obtain ⟨cause, _, first, frameType, _, ⟨known, second⟩, reason, _, ⟨third, -⟩, rfl, rfl⟩ := read
    refine ⟨cause, frameType, reason, rfl, known, ?_⟩
    exact starts_num_begins.mpr ⟨_, first, starts_append_iff.mpr ⟨_, second, third⟩⟩
  · intro spelled
    obtain ⟨cause, frameType, reason, rfl, known, starts⟩ := spelled
    obtain ⟨_, first, starts⟩ := starts_num_begins.mp starts
    obtain ⟨_, second, third⟩ := starts_append_iff.mp starts
    exact ⟨cause, _, first, frameType, _, ⟨known, second⟩, reason, _, ⟨third, by simp⟩, rfl, rfl⟩

/-- The fields of DATAGRAM are read from the bytes of a decoded frame, and from no others. -/
theorem readDatagram_on : (readDatagram code).on window = .ok (f, left) ↔
    ∃ data, f = .datagram (some data) (some (decide (code = 0x31))) ∧
      Starts varintFormat f.fields window left ∧ (decide (code = 0x31) = false → left = []) := by
  -- The frame is its data, with or without a count.
  simp only [readDatagram, Scan.on_bind, bind_eq_ok, Prod.exists, readData_on, Scan.on_pure,
    Except.ok.injEq, Prod.mk.injEq]
  constructor
  · intro read
    obtain ⟨data, _, ⟨starts, ended⟩, rfl, rfl⟩ := read
    exact ⟨data, rfl, starts, ended⟩
  · intro spelled
    obtain ⟨data, rfl, starts, ended⟩ := spelled
    exact ⟨data, _, ⟨starts, ended⟩, rfl, rfl⟩

/-- The fields of QX_TRANSPORT_PARAMETERS are read from a block of parameters, and from nothing else. -/
theorem readTransportParameters_on : readTransportParameters.on window = .ok (f, left) ↔
    ∃ params, f = .qxTransportParameters (.params params) ∧ DecodedTps params ∧
      Starts varintFormat (.sized (tpsLayout params) .done) window left := by
  -- The count cuts the block off, and the block decodes on its own.
  simp only [readTransportParameters, Scan.on_bind, bind_eq_ok, Prod.exists, readData_on,
    starts_counted_iff, Scan.on_lift, map_eq_ok, decodeTps_eq_ok, Scan.on_pure, Except.ok.injEq,
    Prod.mk.injEq, starts_sized_begins, starts_done_iff]
  constructor
  · intro read
    obtain ⟨block, _, ⟨begins, -⟩, params, _, ⟨_, ⟨decoded, starts⟩, rfl, rfl⟩, rfl, rfl⟩ := read
    exact ⟨_, rfl, decoded, block, _, begins, starts, rfl⟩
  · intro spelled
    obtain ⟨params, rfl, decoded, block, _, begins, starts, rfl⟩ := spelled
    exact ⟨block, _, ⟨begins, by simp⟩, params, _, ⟨_, ⟨decoded, starts⟩, rfl, rfl⟩, rfl, rfl⟩

/-- A frame of one number is read where the number is spelled. -/
theorem numbers1_on {build : Nat → Frame} :
    (readV >>= fun first => pure (build first)).on window = .ok (f, left) ↔
      ∃ first, f = build first ∧ Starts varintFormat (nums [first]) window left := by
  -- The reader of an integer is the layout of a number.
  simp only [Scan.on_bind, bind_eq_ok, Prod.exists, readV_on, Scan.on_pure, Except.ok.injEq,
    Prod.mk.injEq, nums, starts_num_begins, starts_done_iff]
  grind

/-- A frame of two numbers is read where they are spelled. -/
theorem numbers2_on {build : Nat → Nat → Frame} :
    (readV >>= fun first => readV >>= fun second => pure (build first second)).on window =
        .ok (f, left) ↔
      ∃ first second, f = build first second ∧
        Starts varintFormat (nums [first, second]) window left := by
  -- Each integer is read where the one before it has ended.
  simp only [Scan.on_bind, bind_eq_ok, Prod.exists, readV_on, Scan.on_pure, Except.ok.injEq,
    Prod.mk.injEq, nums, starts_num_begins, starts_done_iff]
  grind

/-- The fields of RESET_STREAM are three integers. -/
theorem readResetStream_on : (decodeFields .resetStream code).on window = .ok (f, left) ↔
    ∃ id cause finalSize, f = .resetStream id cause finalSize ∧
      Starts varintFormat (nums [id, cause, finalSize]) window left := by
  -- Three integers, with nothing to check behind them.
  simp only [decodeFields, Scan.on_bind, bind_eq_ok, Prod.exists, readV_on, Scan.on_pure,
    Except.ok.injEq, Prod.mk.injEq, nums, starts_num_begins, starts_done_iff]
  grind

/-- The fields of RESET_STREAM_AT are four integers, of which the last is no larger than the third. -/
theorem readResetStreamAt_on : readResetStreamAt.on window = .ok (f, left) ↔
    ∃ id cause finalSize reliableSize, f = .resetStreamAt id cause finalSize reliableSize ∧
      reliableSize ≤ finalSize ∧
      Starts varintFormat (nums [id, cause, finalSize, reliableSize]) window left := by
  -- The comparison of the two sizes is the only condition beyond the integers.
  simp only [readResetStreamAt, Scan.on_bind, bind_eq_ok, Prod.exists, readV_on,
    Scan.on_failIf_eq_ok, Scan.on_pure, Except.ok.injEq, Prod.mk.injEq, nums, starts_num_begins,
    starts_done_iff]
  grind

/-- The field of MAX_STREAMS is one integer, which is not beyond the limit. -/
theorem readMaxStreams_on : (readMaxStreams code).on window = .ok (f, left) ↔
    ∃ max, f = .maxStreams (decide (code = 0x12)) max ∧ ¬ beyondStreams max ∧
      Starts varintFormat (nums [max]) window left := by
  -- The type decides which kind of stream is counted, and the bound is checked for both.
  simp only [readMaxStreams, Scan.on_bind, bind_eq_ok, Prod.exists, readV_on,
    Scan.on_failIf_eq_ok, Scan.on_pure, Except.ok.injEq, Prod.mk.injEq, nums, starts_num_begins,
    starts_done_iff]
  grind

/-- The field of STREAMS_BLOCKED is one integer, which is not beyond the limit. -/
theorem readStreamsBlocked_on : (readStreamsBlocked code).on window = .ok (f, left) ↔
    ∃ limit, f = .streamsBlocked (decide (code = 0x16)) limit ∧ ¬ beyondStreams limit ∧
      Starts varintFormat (nums [limit]) window left := by
  -- The same bound as for the limit itself.
  simp only [readStreamsBlocked, Scan.on_bind, bind_eq_ok, Prod.exists, readV_on,
    Scan.on_failIf_eq_ok, Scan.on_pure, Except.ok.injEq, Prod.mk.injEq, nums, starts_num_begins,
    starts_done_iff]
  grind

/-- The fields of GOAWAY are three integers, of which the first two are not beyond the limit. -/
theorem readGoaway_on : readGoaway.on window = .ok (f, left) ↔
    ∃ maxBidi maxUni cause, f = .goaway maxBidi maxUni cause ∧
      (¬ beyondStreams maxBidi ∧ ¬ beyondStreams maxUni) ∧
      Starts varintFormat (nums [maxBidi, maxUni, cause]) window left := by
  -- Both counts are under the bound, or the frame is refused.
  simp only [readGoaway, Scan.on_bind, bind_eq_ok, Prod.exists, readV_on, Scan.on_failIf_eq_ok,
    Scan.on_pure, Except.ok.injEq, Prod.mk.injEq, nums, starts_num_begins, starts_done_iff]
  grind

/-- Each status is listed under its own number. -/
theorem pipeStatusValues_eq_ok {number : Nat} {status : PipeStatus} :
    entry pipeStatusValues number = .ok status ↔ number = status.code :=
  entry_eq_ok_iff (fun status => by cases status <;> rfl) (by decide)

/-- Each direction is listed under its own bits. -/
theorem pipeDirections_eq_ok {number : Nat} {direction : Direction} :
    entry pipeDirections number = .ok direction ↔ number = direction.code :=
  entry_eq_ok_iff (fun direction => by cases direction <;> rfl) (by decide)

/-- The fields of PIPE_STATUS are four integers, of which the third is that of a status. -/
theorem readStatus_on : readStatus.on window = .ok (f, left) ↔
    ∃ pipe seq status priority, f = .pipeStatus pipe seq (.named status) (some priority) ∧
      Starts varintFormat (nums [pipe, seq, status.code, priority]) window left := by
  -- The lookup of the status succeeds exactly for the number of a status.
  simp only [readStatus, Scan.on_bind, bind_eq_ok, Prod.exists, readV_on, Scan.on_failIf_eq_ok,
    Scan.on_lift, map_eq_ok, pipeStatusValues_eq_ok, Scan.on_pure, Except.ok.injEq, Prod.mk.injEq,
    nums, starts_num_begins, starts_done_iff]
  constructor
  · intro read
    obtain ⟨pipe, _, first, seq, _, second, _, _, third, priority, _, fourth, _, _, ⟨-, rfl⟩,
      status, _, ⟨_, rfl, rfl, rfl⟩, rfl, rfl⟩ := read
    exact ⟨pipe, seq, _, priority, rfl, _, first, _, second, _, third, _, fourth, rfl⟩
  · intro spelled
    obtain ⟨pipe, seq, status, priority, rfl, _, first, _, second, _, third, _, fourth, rfl⟩ :=
      spelled
    exact ⟨pipe, _, first, seq, _, second, _, _, third, priority, _, fourth, (), _,
      ⟨by cases status <;> decide, rfl⟩, status, _, ⟨_, rfl, rfl, rfl⟩, rfl, rfl⟩

/-- The fields of PIPE_LANE are a key and two integers. -/
theorem readLane_on : readLane.on window = .ok (f, left) ↔
    ∃ key pipe lane, f = .pipeLane key pipe lane ∧ key.length = Limits.laneKeyBytes ∧
      Starts varintFormat (.bytes key (nums [pipe, lane])) window left := by
  -- The key has a fixed width, so the integers behind it start at a fixed place.
  simp only [readLane, Scan.on_bind, bind_eq_ok, Prod.exists, readV_on, take_on, Scan.on_pure,
    Except.ok.injEq, Prod.mk.injEq, nums, starts_bytes_iff, starts_num_begins, starts_done_iff]
  grind

/-- A byte whose low half is clear is the priority byte of its own high half. -/
theorem priorityBits_read {byte : UInt8} (clear : ¬ hasBit byte.toNat 0x0F = true) :
    byte.toNat >>> 5 ≤ 7 ∧
    byte = UInt8.ofNat (priorityBits (byte.toNat >>> 5) (some (hasBit byte.toNat 0x10))) := by
  -- There are only 256 bytes, and each of them is inspected.
  have all : ∀ number < 256, ¬ hasBit number 0x0F = true → number >>> 5 ≤ 7 ∧
      priorityBits (number >>> 5) (some (hasBit number 0x10)) = number := by decide +kernel
  obtain ⟨bound, same⟩ := all byte.toNat byte.toNat_lt clear
  exact ⟨bound, by rw [same, UInt8.ofNat_toNat]⟩

/-- A priority byte gives back the urgency and the flag it was made of. -/
theorem priorityBits_write {urgency : Nat} {incremental : Bool} (bound : urgency ≤ 7) :
    priorityBits urgency (some incremental) < 256 ∧
    ¬ hasBit (priorityBits urgency (some incremental)) 0x0F = true ∧
    priorityBits urgency (some incremental) >>> 5 = urgency ∧
    hasBit (priorityBits urgency (some incremental)) 0x10 = incremental := by
  -- Eight urgencies and one flag make sixteen bytes to inspect.
  have all : ∀ urgency < 8, ∀ incremental, priorityBits urgency (some incremental) < 256 ∧
      ¬ hasBit (priorityBits urgency (some incremental)) 0x0F = true ∧
      priorityBits urgency (some incremental) >>> 5 = urgency ∧
      hasBit (priorityBits urgency (some incremental)) 0x10 = incremental := by decide
  exact all urgency (by omega) incremental

/-- The fields of PRIORITY_UPDATE are two integers and one byte without reserved bits. -/
theorem readPriorityUpdate_on : readPriorityUpdate.on window = .ok (f, left) ↔
    ∃ id seq urgency incremental, f = .priorityUpdate id seq urgency (some incremental) ∧
      urgency ≤ 7 ∧ Starts varintFormat (nums [id, seq] ++
        .bytes [UInt8.ofNat (priorityBits urgency (some incremental))] .done) window left := by
  -- The last byte is split into the urgency and the flag, and put together from them.
  simp only [readPriorityUpdate, Scan.on_bind, bind_eq_ok, Prod.exists, readV_on, octet_on,
    Scan.on_failIf_eq_ok, Scan.on_pure, Except.ok.injEq, Prod.mk.injEq, nums, starts_append_iff,
    starts_bytes_iff, starts_num_begins, starts_done_iff]
  constructor
  · intro read
    obtain ⟨id, _, first, seq, _, second, byte, _, rfl, _, _, ⟨clear, rfl⟩, rfl, rfl⟩ := read
    obtain ⟨bound, same⟩ := priorityBits_read clear
    refine ⟨id, seq, _, _, rfl, bound, _, ⟨_, first, _, second, rfl⟩, _, ?_, rfl⟩
    rw [← same]
    rfl
  · intro spelled
    obtain ⟨id, seq, urgency, incremental, rfl, bound, _, ⟨_, first, _, second, rfl⟩, _, rfl, rfl⟩ :=
      spelled
    obtain ⟨small, clear, high, bit⟩ := @priorityBits_write urgency incremental bound
    have byte := UInt8.toNat_ofNat_of_lt' small
    refine ⟨id, _, first, seq, _, second, _, _, rfl, (), _, ⟨?_, rfl⟩, ?_, rfl⟩
    · rw [byte]
      exact clear
    · rw [byte, high, bit]

/-- A flags byte without reserved bits and with a direction is put together from its parts. -/
theorem joinFlags_read {byte : UInt8} {direction : Direction}
    (clear : ¬ hasBit byte.toNat pipeJoinReservedMask = true)
    (known : byte.toNat &&& 0x03 = direction.code) :
    byte = UInt8.ofNat (direction.code
      ||| flag pipeJoinFlagCarrierBound (hasBit byte.toNat pipeJoinFlagCarrierBound)
      ||| flag pipeJoinFlagStandby (hasBit byte.toNat pipeJoinFlagStandby)) := by
  -- There are only 256 bytes, and the reserved bits of each are inspected.
  have all : ∀ number < 256, ¬ hasBit number pipeJoinReservedMask = true →
      (number &&& 0x03) ||| flag pipeJoinFlagCarrierBound (hasBit number pipeJoinFlagCarrierBound)
        ||| flag pipeJoinFlagStandby (hasBit number pipeJoinFlagStandby) = number := by
    decide +kernel
  rw [← known, all byte.toNat byte.toNat_lt clear, UInt8.ofNat_toNat]

/-- A flags byte gives back the direction and the flags it was made of. -/
theorem joinFlags_write {direction : Direction} {carrierBound standby : Bool} :
    let flags := direction.code ||| flag pipeJoinFlagCarrierBound carrierBound
      ||| flag pipeJoinFlagStandby standby
    flags < 256 ∧ flags &&& 0x03 = direction.code ∧ direction.code ≠ 3 ∧
    ¬ hasBit flags pipeJoinReservedMask = true ∧
    hasBit flags pipeJoinFlagCarrierBound = carrierBound ∧
    hasBit flags pipeJoinFlagStandby = standby := by
  -- Three directions and two flags make twelve bytes to inspect.
  cases direction <;> cases carrierBound <;> cases standby <;> decide

/-- The fields of PIPE_JOIN are read from the bytes of a decoded join, and from no others. -/
theorem readJoin_on : readJoin.on window = .ok (f, left) ↔ ∃ join, f = .pipeJoin join ∧
    join.Decoded ∧ Starts varintFormat (join.body ++ .bytes join.token .done) window left := by
  -- The fields are read one after the other, each where the layout puts it.
  simp only [readJoin, Scan.on_bind, bind_eq_ok, Prod.exists, readV_on, octet_on, take_on,
    Scan.on_failIf_eq_ok, Scan.on_lift, map_eq_ok, pipeDirections_eq_ok, Scan.on_pure,
    Except.ok.injEq, Prod.mk.injEq]
  constructor
  · intro read
    obtain ⟨ln, _, rfl, _, _, ⟨range, rfl⟩, locator, _, ⟨rfl, long⟩, pipe, _, first, byte, _, rfl,
      _, _, ⟨named, rfl⟩, _, _, ⟨clear, rfl⟩, direction, _, ⟨_, known, rfl, rfl⟩, fate, _, second,
      priority, _, third, token, _, ⟨rfl, wide⟩, rfl, rfl⟩ := read
    -- The count of the locator is read back from the locator.
    have count : UInt8.ofNat locator.length = ln := by rw [long, UInt8.ofNat_toNat]
    have bounds : 1 ≤ locator.length ∧ locator.length ≤ Limits.maxLocatorBytes := by omega
    refine ⟨_, rfl, ⟨bounds, ⟨_, rfl⟩, ⟨_, rfl⟩, ⟨_, rfl⟩, rfl, ⟨_, rfl⟩, wide⟩, ?_⟩
    simp only [Join.body, nums, Layout.bytes_append, Layout.num_append, Layout.done_append,
      starts_bytes_iff, starts_num_begins, starts_done_iff]
    refine ⟨_, by rw [count]; rfl, _, first, _, ?_, _, second, _, third, _, rfl, rfl⟩
    -- The flags byte of the layout is the byte that was read.
    rw [Join.flags, DirectionField.value, Option.getD_some, Option.getD_some, Option.getD_none,
      Nat.or_zero, ← joinFlags_read clear known]
    rfl
  · intro spelled
    obtain ⟨⟨locator, pipe, _, _, _, _, fate, _, token⟩, rfl, ⟨range, ⟨direction, rfl⟩,
      ⟨carrierBound, rfl⟩, ⟨standby, rfl⟩, rfl, ⟨priority, rfl⟩, wide⟩, starts⟩ := spelled
    simp only [Join.body, nums, Layout.bytes_append, Layout.num_append, Layout.done_append,
      starts_bytes_iff, starts_num_begins, starts_done_iff] at starts
    obtain ⟨_, rfl, _, first, _, rfl, _, second, _, third, _, rfl, rfl⟩ := starts
    -- A locator within the bound has a count of one byte.
    have few : (UInt8.ofNat locator.length).toNat = locator.length :=
      UInt8.toNat_ofNat_of_lt' (Nat.lt_of_le_of_lt range.2 (by decide))
    obtain ⟨small, known, named, clear, bound, held⟩ :=
      @joinFlags_write direction carrierBound standby
    have byte := UInt8.toNat_ofNat_of_lt' small
    refine ⟨_, _, rfl, (), _, ⟨by rw [few]; simp only at range; omega, rfl⟩, locator, _,
      ⟨rfl, few.symm⟩, pipe, _, first, _, _, rfl, (), _, ⟨?_, rfl⟩, (), _, ⟨?_, rfl⟩, direction, _,
      ⟨_, ?_, rfl, rfl⟩, fate, _, second, priority, _, third, token, _, ⟨rfl, wide⟩, ?_, rfl⟩
    -- Every condition on the flags byte is one of the parts it is made of.
    all_goals
      simp only [Join.flags, DirectionField.value, Option.getD_some, Option.getD_none, Nat.or_zero,
        byte, known, bound, held]
    · exact named
    · exact clear

/-- An entry of an acknowledgement is four integers. -/
theorem readEntry_on {entry : AckEntry} {window left : Bytes} :
    readEntry.on window = .ok (entry, left) ↔
      Starts varintFormat (nums entry.values) window left := by
  -- An entry is its four integers.
  obtain ⟨pipe, lane, position, delay⟩ := entry
  simp only [readEntry, Scan.on_bind, bind_eq_ok, Prod.exists, readV_on, Scan.on_pure,
    Except.ok.injEq, Prod.mk.injEq, AckEntry.values, nums, starts_num_begins, starts_done_iff]
  grind

/-- Numbers of two lists are spelled one list after the other. -/
@[simp] theorem nums_append (front back : List Nat) :
    nums (front ++ back) = nums front ++ nums back := by
  -- The induction is on the list that comes first.
  induction front with
  | nil => rfl
  | cons value values ih => simp [nums, ih]

/-- The entries read are above each other, and the first one above the last one read before. -/
theorem readEntries_on {count : Nat} {last : Option AckEntry} {entries : List AckEntry}
    {window left : Bytes} : (readEntries count last).on window = .ok (entries, left) ↔
      entries.length = count ∧ Ascending (last.toList ++ entries) ∧
      Starts varintFormat (nums (entries.flatMap AckEntry.values)) window left := by
  -- The induction is on the number of entries left, with the last one read kept in hand.
  induction count generalizing last entries window left with
  | zero =>
    simp only [readEntries, Scan.on_pure, Except.ok.injEq, Prod.mk.injEq, List.length_eq_zero_iff]
    constructor
    · intro read
      obtain ⟨rfl, rfl⟩ := read
      cases last <;> simp [Ascending, nums]
    · intro spelled
      obtain ⟨rfl, -, starts⟩ := spelled
      exact ⟨rfl, starts_done_iff.mp starts⟩
  | succ count ih =>
    simp only [readEntries, Scan.on_bind, bind_eq_ok, Prod.exists, readEntry_on,
      Scan.on_failIf_eq_ok, ih, Scan.on_pure, Except.ok.injEq, Prod.mk.injEq]
    -- The entry at the head is compared with the last one, and is the last one for the others.
    have head : ∀ (entry : AckEntry) (others : List AckEntry),
        Ascending (last.toList ++ entry :: others) ↔
          (¬ ∃ before ∈ last, entry.notAbove before) ∧ Ascending (entry :: others) := by
      intro entry others
      cases last <;> simp [Ascending]
    constructor
    · intro read
      obtain ⟨entry, _, first, _, _, ⟨above, rfl⟩, others, _, ⟨rfl, ascending, starts⟩, rfl, rfl⟩ :=
        read
      -- The integers of the head are spelled before those of the others.
      refine ⟨rfl, (head entry others).mpr ⟨above, ascending⟩, ?_⟩
      rw [List.flatMap_cons, nums_append]
      exact starts_append_iff.mpr ⟨_, first, starts⟩
    · intro spelled
      obtain ⟨long, ascending, starts⟩ := spelled
      cases entries with
      | nil => cases long
      | cons entry others =>
        obtain ⟨above, ascending⟩ := (head entry others).mp ascending
        rw [List.flatMap_cons, nums_append] at starts
        obtain ⟨_, first, starts⟩ := starts_append_iff.mp starts
        exact ⟨entry, _, first, (), _, ⟨above, rfl⟩, others, _,
          ⟨Nat.succ.inj long, ascending, starts⟩, rfl, rfl⟩

/-- The fields of PIPE_ACK are a number of entries, and the entries in ascending order. -/
theorem readAck_on : readAck.on window = .ok (f, left) ↔ ∃ entries, f = .pipeAck entries ∧
    (entries ≠ [] ∧ Ascending entries) ∧
    Starts varintFormat (nums (entries.length :: entries.flatMap AckEntry.values)) window left := by
  -- The number of entries is spelled first, and the entries read are as many.
  simp only [readAck, Scan.on_bind, bind_eq_ok, Prod.exists, readV_on, Scan.on_failIf_eq_ok,
    readEntries_on, Scan.on_pure, Except.ok.injEq, Prod.mk.injEq, nums, starts_num_begins]
  constructor
  · intro read
    obtain ⟨_, _, first, _, _, ⟨some, rfl⟩, entries, _, ⟨rfl, ascending, starts⟩, rfl, rfl⟩ := read
    exact ⟨entries, rfl, ⟨by simpa using some, ascending⟩, _, first, starts⟩
  · intro spelled
    obtain ⟨entries, rfl, ⟨some, ascending⟩, _, first, starts⟩ := spelled
    exact ⟨_, _, first, (), _, ⟨by simpa using some, rfl⟩, entries, _, ⟨rfl, ascending, starts⟩,
      rfl, rfl⟩

end Zmux
