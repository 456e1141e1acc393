import Zmux.Proofs.FrameEncoding
import Zmux.Proofs.Payloads

/-! Decoding an encoded list of well-formed frames gives the list back in canonical form. -/

namespace Zmux

open Wire

/-- Every default of a join made explicit. -/
def Join.explicit (join : Join) : Join :=
  { join with
    carrierBound := some (join.carrierBound.getD false)
    standby := some (join.standby.getD false)
    reservedFlags := none
    priority := some (join.priority.getD pipePriorityDefault) }

/-- Every default of a frame made explicit, and a cause that is not sent left out. -/
def Frame.explicit : Frame → Frame
  | .padding count => .padding (some (count.getD 1))
  | .stream id off data fin hasOff hasLen =>
    .stream id (some (off.getD 0)) (some (data.getD [])) (some (fin.getD false))
      (some (hasOff.getD (decide (off.getD 0 > 0)))) (some (hasLen.getD true))
  | .connectionClose app code frameType reason =>
    .connectionClose (some (app.getD false)) code
      -- An application's close has no frame type, whatever the frame says of one.
      (if app.getD false then none else some (frameType.getD 0)) (some (reason.getD []))
  | .datagram data hasLen => .datagram (some (data.getD [])) (some (hasLen.getD true))
  | .qxPing response seq => .qxPing (some (response.getD false)) seq
  | .priorityUpdate id seq urgency incremental =>
    .priorityUpdate id seq urgency (some (incremental.getD false))
  | .pipeJoin join => .pipeJoin join.explicit
  | .pipeStatus pipe seq status priority =>
    .pipeStatus pipe seq status (some (priority.getD pipePriorityDefault))
  -- The other frames have no defaults.
  | f => f

/-- Put a run of padding in front of frames, joining it with a run they begin with. -/
def pushPadding (count : Nat) (fs : List Frame) : List Frame :=
  -- A run of no bytes leaves no trace on the wire.
  if count = 0 then fs
  else match fs with
    | .padding more :: others => .padding (some (count + more.getD 1)) :: others
    | others => .padding (some count) :: others

/-- Each run of padding as one frame with the sum of the counts, or no frame if the sum is zero. -/
def mergePadding : List Frame → List Frame
  | [] => []
  -- The rest is merged first, so a run meets at most one run behind it.
  | .padding count :: fs => pushPadding (count.getD 1) (mergePadding fs)
  | f :: fs => f :: mergePadding fs

/-- Frames with every default explicit and every run of padding merged. -/
def canonical (fs : List Frame) : List Frame := mergePadding (fs.map Frame.explicit)

/-- The integers of a value are in range. -/
def TpValue.InRange : TpValue → Prop
  | .varint number => number ≤ maxVarint
  | .lanes maxLanes _ => maxLanes ≤ maxVarint
  | _ => True

/-- The integers of a parameter are in range, a number and a length that are not fixed included. -/
def Param.InRange : Param → Prop
  | ⟨.num id, .raw literal⟩ => id ≤ maxVarint ∧ literal.length ≤ maxVarint
  | ⟨_, .value value⟩ => value.InRange
  -- No other pairing is decoded, so nothing is asked of it here.
  | _ => True

/-- A parameter is a value in the format of its name, or the bytes of an unknown number. -/
structure Param.WellFormed (param : Param) : Prop where
  known : param.Decoded
  range : param.InRange

/-- Parameters of different numbers that pass the checks, in a block whose length has a form. -/
structure WellFormedTps (params : List Param) : Prop where
  each : ∀ param ∈ params, param.WellFormed
  distinct : (params.map fun param => param.id.sent).Nodup
  checked : ∃ dict, validateTps params = .ok dict
  short : ∀ body, encodeTps params = .ok body → body.length ≤ maxVarint

/-- A join with a named direction, no reserved flag, and fields of the lengths they must have. -/
structure Join.WellFormed (join : Join) : Prop where
  locator : 1 ≤ join.locator.length ∧ join.locator.length ≤ Limits.maxLocatorBytes
  direction : ∃ direction, join.direction = .named direction
  reservedFlags : join.reservedFlags.getD 0 = 0
  pipe : join.pipe ≤ maxVarint
  fateGroup : join.fateGroup ≤ maxVarint
  priority : join.priority.getD pipePriorityDefault ≤ maxVarint
  token : join.token.length = 16

/-- A frame whose integers are in range and whose fields are within the bounds of the decoder. -/
def Frame.WellFormed : Frame → Prop
  | .raw _ | .repeated .. | .qxTransportParameters (.raw _) => False
  | .padding _ | .pipePing => True
  | .stream id off data _ hasOff _ => id ≤ maxVarint ∧
    -- An offset that is not zero must not be left out by the flag.
    off.getD 0 + (data.getD []).length ≤ maxVarint ∧ (0 < off.getD 0 → hasOff ≠ some false)
  | .resetStream id code finalSize => id ≤ maxVarint ∧ code ≤ maxVarint ∧ finalSize ≤ maxVarint
  | .resetStreamAt id code finalSize reliableSize => id ≤ maxVarint ∧ code ≤ maxVarint ∧
    finalSize ≤ maxVarint ∧ reliableSize ≤ finalSize
  | .stopSending id code => id ≤ maxVarint ∧ code ≤ maxVarint
  | .maxData max => max ≤ maxVarint
  | .maxStreamData id max => id ≤ maxVarint ∧ max ≤ maxVarint
  | .maxStreams _ max => max ≤ 1 <<< 60
  | .dataBlocked limit => limit ≤ maxVarint
  | .streamDataBlocked id limit => id ≤ maxVarint ∧ limit ≤ maxVarint
  | .streamsBlocked _ limit => limit ≤ 1 <<< 60
  | .connectionClose app code frameType reason => code ≤ maxVarint ∧
    -- The frame type is only bounded where it is sent.
    (app.getD false = false → frameType.getD 0 ≤ maxVarint) ∧
    (reason.getD []).length ≤ maxVarint
  | .datagram data hasLen => hasLen.getD true = true → (data.getD []).length ≤ maxVarint
  | .qxTransportParameters (.params params) => WellFormedTps params
  | .qxPing _ seq => seq ≤ maxVarint
  | .goaway maxBidi maxUni code => maxBidi ≤ 1 <<< 60 ∧ maxUni ≤ 1 <<< 60 ∧ code ≤ maxVarint
  | .priorityUpdate id seq urgency _ => id ≤ maxVarint ∧ seq ≤ maxVarint ∧ urgency ≤ 7
  | .pipeJoin join => join.WellFormed
  | .pipeAck entries => entries ≠ [] ∧ Ascending entries ∧ entries.length ≤ maxVarint ∧
    ∀ entry ∈ entries, ∀ value ∈ entry.values, value ≤ maxVarint
  | .pipeLane key pipe lane =>
    key.length = Limits.laneKeyBytes ∧ pipe ≤ maxVarint ∧ lane ≤ maxVarint
  | .pipeAbandon pipe code => pipe ≤ maxVarint ∧ code ≤ maxVarint
  | .pipeStatus pipe seq status priority => pipe ≤ maxVarint ∧ seq ≤ maxVarint ∧
    (∃ which, status = .named which) ∧ priority.getD pipePriorityDefault ≤ maxVarint

/-- Numbers in range have forms. -/
theorem nums_fits {values : List Nat} (range : ∀ value ∈ values, value ≤ maxVarint) :
    (nums values).Fits varintFormat := by
  -- The induction is on the integers, each of which has its shortest form.
  induction values with
  | nil => trivial
  | cons value values ih =>
    exact ⟨legal_shortest_iff.mpr (range value List.mem_cons_self),
      ih fun other member => range other (List.mem_cons_of_mem _ member)⟩

/-- Data whose length is in range has a layout that fits. -/
theorem dataLayout_fits {hasLen : Bool} {data : Bytes}
    (short : hasLen = true → data.length ≤ maxVarint) :
    (dataLayout hasLen data).Fits varintFormat := by
  -- Only the count of the data needs a form.
  cases hasLen with
  | true =>
    refine ⟨trivial, legal_shortest_iff.mpr ?_, trivial⟩
    simpa [Layout.short] using short rfl
  | false => trivial

/-- The shortest form of an integer in range takes at most eight bytes. -/
theorem shortest_form_le {number : Nat} (small : number ≤ maxVarint) :
    (varintFormat.form number (varintFormat.shortest number)).length ≤ 8 := by
  -- The widest form has eight bytes.
  have legal : varintFormat.Legal number (varintFormat.shortest number) :=
    legal_shortest_iff.mpr small
  rw [varintFormat.form_length legal]
  exact (varint_width legal).2

/-- A value is a few integers and a few bytes, far below the bound on its length. -/
theorem TpValue.InFormat.fits {format : TpFormat} {value : TpValue}
    (formed : value.InFormat format) (range : value.InRange) :
    value.layout.Fits varintFormat ∧ (value.layout.short varintFormat).length ≤ maxVarint := by
  -- Each format has its own bound on the parts of a value.
  have large : 64 ≤ maxVarint := by decide
  cases format <;> cases value <;> first | exact formed.elim | skip
  case varint.varint number =>
    have bound := shortest_form_le range
    refine ⟨⟨legal_shortest_iff.mpr range, trivial⟩, ?_⟩
    simp only [TpValue.layout, Layout.short, List.append_nil]
    omega
  case empty.none => exact ⟨trivial, by simp [TpValue.layout, Layout.short]⟩
  case role.role which nonce =>
    have small : which.code ≤ maxVarint := by cases which <;> decide
    have bound := shortest_form_le small
    have tail : ((nonce.map (bigEndian 8)).getD []).length ≤ 8 := by cases nonce <;> simp
    refine ⟨⟨legal_shortest_iff.mpr small, trivial⟩, ?_⟩
    simp only [TpValue.layout, Layout.short, List.append_nil, List.length_append]
    omega
  case multipath.multipath flags nonce locator =>
    obtain ⟨-, long, short⟩ := formed
    have sixteen : Limits.maxLocatorBytes = 16 := rfl
    refine ⟨trivial, ?_⟩
    simp only [TpValue.layout, Layout.short, List.append_nil, List.length_cons, List.length_append]
    omega
  case lanes.lanes maxLanes key =>
    have bound := shortest_form_le range
    have long : key.length = 16 := formed.2
    refine ⟨⟨legal_shortest_iff.mpr range, trivial⟩, ?_⟩
    simp only [TpValue.layout, Layout.short, List.append_nil, List.length_append]
    omega

/-- A well-formed parameter has a layout that fits. -/
theorem Param.WellFormed.fits {param : Param} (formed : param.WellFormed) :
    param.layout.Fits varintFormat := by
  obtain ⟨known, range⟩ := formed
  rcases known.kinds with ⟨id, literal, rfl, -⟩ | ⟨row, format, value, rfl, member, -, -, formed⟩
  · obtain ⟨small, short⟩ := range
    refine ⟨legal_shortest_iff.mpr small, trivial, legal_shortest_iff.mpr ?_, trivial⟩
    simpa [TpContent.layout, Layout.short] using short
  · -- Every number of the registry has a form.
    have table : ∀ row ∈ transportParameters, row.id ≤ maxVarint := by decide
    have small := table row member
    rw [← sent_row member] at small
    have inner := formed.fits range
    exact ⟨legal_shortest_iff.mpr small, inner.1, legal_shortest_iff.mpr inner.2, trivial⟩

/-- A well-formed block has a layout that fits. -/
theorem tpsLayout_fits {params : List Param} (formed : ∀ param ∈ params, param.WellFormed) :
    (tpsLayout params).Fits varintFormat := by
  -- The induction is on the parameters, each of which fits on its own.
  induction params with
  | nil => trivial
  | cons param params ih =>
    exact Layout.fits_append.mpr ⟨(formed param List.mem_cons_self).fits,
      ih fun other member => formed other (List.mem_cons_of_mem _ member)⟩

/-- Making defaults explicit does not change what a well-formed frame is encoded as. -/
theorem encodeFrame_explicit {f : Frame} (formed : f.WellFormed) :
    encodeFrame f.explicit = encodeFrame f := by
  -- The encoder fills in the same defaults, so nothing it writes depends on which are explicit.
  cases f with
  | connectionClose app code frameType reason =>
    cases app with
    | none => rfl
    | some app => cases app <;> rfl
  | pipeJoin join =>
    have none := formed.reservedFlags
    have body : encodeJoinBody join.explicit = encodeJoinBody join := by
      simp only [encodeJoinBody, Join.explicit, Option.getD_some, Option.getD_none, none]
    simp only [Frame.explicit, encodeFrame, encodeFields, body]
    rfl
  | _ => rfl

/-- A well-formed frame with its defaults explicit is one that the decoder gives. -/
theorem Frame.WellFormed.decoded {f : Frame} (formed : f.WellFormed)
    (some : f.explicit ≠ .padding (some 0)) :
    f.explicit.Decoded ∧ f.explicit.layout.Fits varintFormat := by
  -- The bounds that the decoder checks are asked for, and every default is filled in.
  cases f with
  | raw | repeated => exact formed.elim
  | padding count =>
    refine ⟨?_, trivial⟩
    apply Nat.pos_of_ne_zero
    intro zero
    exact some (by rw [Frame.explicit, zero])
  | stream id off data fin hasOff hasLen =>
    obtain ⟨small, bound, present⟩ := formed
    have short : (data.getD []).length ≤ maxVarint := by omega
    refine ⟨⟨?_, bound⟩, legal_shortest_iff.mpr small, Layout.fits_append.mpr ⟨?_, ?_⟩⟩
    -- An offset that is not sent would be lost, so it must be zero.
    · intro missing
      by_contra positive
      cases hasOff with
      | none => simp [Nat.pos_of_ne_zero positive] at missing
      | some set =>
        rw [Option.getD_some] at missing
        exact present (Nat.pos_of_ne_zero positive) (by rw [missing])
    · split
      · exact nums_fits (by simp only [List.mem_singleton, Option.getD_some]; omega)
      · trivial
    · exact dataLayout_fits fun _ => short
  | resetStream id code finalSize =>
    obtain ⟨first, second, third⟩ := formed
    exact ⟨trivial, nums_fits (by simp [first, second, third])⟩
  | resetStreamAt id code finalSize reliableSize =>
    obtain ⟨first, second, third, fourth⟩ := formed
    exact ⟨fourth, nums_fits (by simp [first, second, third, Nat.le_trans fourth third])⟩
  | stopSending id code =>
    obtain ⟨first, second⟩ := formed
    exact ⟨trivial, nums_fits (by simp [first, second])⟩
  | maxData max =>
    have small : max ≤ maxVarint := formed
    exact ⟨trivial, nums_fits (by simpa using small)⟩
  | maxStreamData id max =>
    obtain ⟨first, second⟩ := formed
    exact ⟨trivial, nums_fits (by simp [first, second])⟩
  | maxStreams bidi max =>
    have bound : max ≤ 1 <<< 60 := formed
    -- The bound on counts of streams is below the largest integer.
    have large : 1 <<< 60 ≤ maxVarint := by decide
    exact ⟨Nat.not_lt.mpr bound, nums_fits (by simp; omega)⟩
  | dataBlocked limit =>
    have small : limit ≤ maxVarint := formed
    exact ⟨trivial, nums_fits (by simpa using small)⟩
  | streamDataBlocked id limit =>
    obtain ⟨first, second⟩ := formed
    exact ⟨trivial, nums_fits (by simp [first, second])⟩
  | streamsBlocked bidi limit =>
    have bound : limit ≤ 1 <<< 60 := formed
    have large : 1 <<< 60 ≤ maxVarint := by decide
    exact ⟨Nat.not_lt.mpr bound, nums_fits (by simp; omega)⟩
  | connectionClose app code frameType reason =>
    obtain ⟨first, second, third⟩ := formed
    refine ⟨?_, legal_shortest_iff.mpr first, Layout.fits_append.mpr ⟨?_, ?_⟩⟩
    · show (if app.getD false then none else Option.some (frameType.getD 0)).isNone = app.getD false
      cases app.getD false <;> rfl
    · cases sent : app.getD false with
      | true => simp [Layout.Fits]
      | false => simpa using nums_fits (by simpa using second sent)
    · exact dataLayout_fits fun _ => third
  | datagram data hasLen => exact ⟨trivial, dataLayout_fits formed⟩
  | qxTransportParameters block =>
    cases block with
    | raw => exact formed.elim
    | params params =>
      obtain ⟨each, distinct, checked, short⟩ := formed
      have known : ∀ param ∈ params, param.Decoded := fun param member => (each param member).known
      have fits := tpsLayout_fits each
      exact ⟨⟨known, distinct, checked⟩, fits,
        legal_shortest_iff.mpr (short _ (encodeTps_eq_ok known fits)), trivial⟩
  | qxPing response seq =>
    have small : seq ≤ maxVarint := formed
    exact ⟨trivial, nums_fits (by simpa using small)⟩
  | goaway maxBidi maxUni code =>
    obtain ⟨first, second, third⟩ := formed
    have large : 1 <<< 60 ≤ maxVarint := by decide
    exact ⟨⟨Nat.not_lt.mpr first, Nat.not_lt.mpr second⟩, nums_fits (by simp; omega)⟩
  | priorityUpdate id seq urgency incremental =>
    obtain ⟨first, second, third⟩ := formed
    exact ⟨third, Layout.fits_append.mpr ⟨nums_fits (by simp [first, second]), trivial⟩⟩
  | pipeJoin join =>
    obtain ⟨locator, direction, -, pipe, fate, priority, token⟩ := formed
    refine ⟨⟨locator, direction, ⟨_, rfl⟩, ⟨_, rfl⟩, rfl, ⟨_, rfl⟩, token⟩,
      Layout.fits_append.mpr ⟨⟨legal_shortest_iff.mpr pipe, nums_fits ?_⟩, trivial⟩⟩
    simp [Join.explicit, fate, priority]
  | pipeAck entries =>
    obtain ⟨nonempty, ascending, short, range⟩ := formed
    refine ⟨⟨nonempty, ascending⟩, nums_fits ?_⟩
    intro value member
    rcases List.mem_cons.mp member with rfl | member
    · exact short
    · obtain ⟨entry, listed, member⟩ := List.mem_flatMap.mp member
      exact range entry listed value member
  | pipeLane key pipe lane =>
    obtain ⟨long, first, second⟩ := formed
    exact ⟨long, nums_fits (by simp [first, second])⟩
  | pipePing => exact ⟨trivial, trivial⟩
  | pipeAbandon pipe code =>
    obtain ⟨first, second⟩ := formed
    exact ⟨trivial, nums_fits (by simp [first, second])⟩
  | pipeStatus pipe seq status priority =>
    obtain ⟨first, second, ⟨which, rfl⟩, third⟩ := formed
    have small : which.code ≤ maxVarint := by cases which <;> decide
    exact ⟨trivial, nums_fits (by simp [StatusField.value, first, second, small, third])⟩

/-- A frame that is not padding is no padding with its defaults explicit either. -/
theorem Frame.explicit_name (f : Frame) : f.explicit.name = f.name := by cases f <;> rfl

/-- A frame with its defaults explicit runs to the end when the frame does. -/
theorem Frame.explicit_runs (f : Frame) : f.explicit.RunsToEnd ↔ f.RunsToEnd := by cases f <;> rfl

/-- Padding is not merged with a frame that has a name. -/
theorem mergePadding_named {f : Frame} {name : FrameName} (named : f.name = some name)
    (fs : List Frame) : mergePadding (f :: fs) = f :: mergePadding fs := by
  -- Only padding is merged, and it has no name.
  cases f with
  | raw | repeated | padding => cases named
  | _ => rfl

/-- Padding is put in front of a frame that has a name. -/
theorem pushPadding_named {f : Frame} {name : FrameName} (named : f.name = some name) {count : Nat}
    (positive : count ≠ 0) (fs : List Frame) :
    pushPadding count (f :: fs) = .padding (some count) :: f :: fs := by
  -- A frame with a name is not padding, so nothing is joined with it.
  cases f with
  | raw | repeated | padding => cases named
  | _ => simp [pushPadding, positive]

variable {enabled : Gates} {limit : Option Nat} {fs : List Frame} {window left : Bytes}

/-- Zero bytes in front of a payload are padding in front of its frames. -/
theorem FramesAt.pushPadding (placed : FramesAt enabled limit fs window) (count : Nat) :
    FramesAt enabled limit (pushPadding count fs) (List.replicate count 0 ++ window) := by
  -- What the payload begins with decides whether a run goes on or a new one starts.
  by_cases zero : count = 0
  · subst zero
    exact placed
  have positive := Nat.pos_of_ne_zero zero
  have head := placed.head_iff
  cases placed with
  | nil =>
    simp only [Zmux.pushPadding, if_neg zero]
    exact .cons (.padding positive (by simp)) .nil
  | @cons f fs window left first others =>
    rcases first.decoded.cases with ⟨more, rfl, -⟩ | ⟨name, named⟩
    · -- The run goes on into the padding that the payload begins with.
      rw [padding_layout_iff.mp first.spelled, ← List.append_assoc, List.replicate_append_replicate]
      simp only [Zmux.pushPadding, if_neg zero, Option.getD_some]
      exact .cons (.padding (by omega) (first.maximal rfl)) others
    · rw [pushPadding_named named zero]
      refine .cons (.padding positive ?_) (.cons first others)
      intro starts
      simp [named] at head
      exact head starts

/-- Well-formed frames are encoded as a payload of the frames in canonical form. -/
theorem encodeFrames_canonical (formed : ∀ f ∈ fs, f.WellFormed)
    (last : ∀ f ∈ fs.dropLast, ¬ f.RunsToEnd) :
    ∃ bytes, encodeFrames fs = .ok bytes ∧ FramesAt none none (canonical fs) bytes := by
  -- The induction is on the frames, and the canonical form of the rest is already placed.
  induction fs with
  | nil => exact ⟨[], rfl, .nil⟩
  | cons f fs ih =>
    have earlier : ∀ other ∈ fs.dropLast, ¬ other.RunsToEnd := by
      intro other member
      apply last
      cases fs with
      | nil => simp at member
      | cons next fs => exact List.mem_cons_of_mem _ member
    obtain ⟨bytes, encoded, placed⟩ :=
      ih (fun other member => formed other (List.mem_cons_of_mem _ member)) earlier
    have shape := formed f List.mem_cons_self
    cases named : f.name with
    | none =>
      cases f with
      | raw | repeated => exact shape.elim
      | padding count =>
        refine ⟨_, ?_, placed.pushPadding (count.getD 1)⟩
        simp [encodeFrames, encodeFrame, encoded]
      | _ => cases named
    | some name =>
      have visible : f.explicit.name = some name := by rw [f.explicit_name, named]
      -- A frame with a name stays one with its defaults explicit, so it is not an empty run.
      have other : f.explicit ≠ .padding (some 0) := by
        intro same
        rw [same] at visible
        cases visible
      obtain ⟨decoded, fits⟩ := shape.decoded other
      have first := encodeFrame_eq_ok decoded fits
      rw [encodeFrame_explicit shape] at first
      refine ⟨f.explicit.layout.short varintFormat ++ bytes,
        by simp [encodeFrames, first, encoded], ?_⟩
      rw [canonical, List.map_cons, mergePadding_named visible]
      refine .cons ⟨decoded, Layout.starts_short fits bytes, ?_, ?_,
        f.explicit.allowed_all, ?_⟩ placed
      · intro unnamed
        rw [visible] at unnamed
        cases unnamed
      · -- A frame that runs to the end is the last one, so nothing follows it.
        intro runs
        rw [f.explicit_runs] at runs
        cases fs with
        | nil =>
          cases encoded
          rfl
        | cons next fs => exact absurd runs (last f List.mem_cons_self)
      · intro _ most within
        cases within

/-- Decoding what a list of well-formed frames is encoded as gives the list in canonical form. -/
theorem decodeFrames_encodeFrames (formed : ∀ f ∈ fs, f.WellFormed)
    (last : ∀ f ∈ fs.dropLast, ¬ f.RunsToEnd) :
    (encodeFrames fs >>= fun bytes => decodeFrames bytes) = .ok (canonical fs) := by
  -- The bytes written are a sequence of the canonical frames, which is what the decoder gives.
  obtain ⟨bytes, encoded, placed⟩ := encodeFrames_canonical formed last
  rw [encoded, ok_bind]
  exact decodeFrames_eq_ok.mpr placed

/-- A well-formed frame with nothing left to a default is decoded from its own encoding. -/
theorem Frame.WellFormed.received {f : Frame} {name : FrameName} (formed : f.WellFormed)
    (complete : f.explicit = f) (named : f.name = some name) (bounded : ¬ f.RunsToEnd) :
    ∃ bytes, encodeFrame f = .ok bytes ∧
      decodeFrame bytes 0 bytes.length = .ok (f, bytes.length) := by
  -- The encoder writes the shortest spelling of the frame, and nothing follows it.
  have other : f.explicit ≠ .padding (some 0) := by
    intro same
    rw [complete] at same
    rw [same] at named
    cases named
  rcases formed.decoded other with ⟨decoded, fits⟩
  rw [complete] at decoded fits
  have placed : FrameAt none none f (f.layout.short varintFormat ++ []) [] := by
    refine ⟨decoded, Layout.starts_short fits [], ?_, ?_, f.allowed_all, ?_⟩
    · intro unnamed
      rw [named] at unnamed
      cases unnamed
    · intro runs
      exact absurd runs bounded
    · intro _ most within
      cases within
  have read := placed.decode
  rw [List.append_nil] at read
  exact ⟨_, encodeFrame_eq_ok decoded fits, read⟩

/-- Frames of several kinds, with padding to merge and a datagram that runs to the end. -/
theorem decodeFrames_encodeFrames_mixed :
    (encodeFrames [.padding (some 2), .padding none, .stream 4 (some 10) (some [1, 2]) none none none,
        .padding (some 0), .maxStreams true 8, .datagram (some [3]) (some false)] >>= fun bytes =>
      decodeFrames bytes) =
    .ok (canonical [.padding (some 2), .padding none,
      .stream 4 (some 10) (some [1, 2]) none none none, .padding (some 0), .maxStreams true 8,
      .datagram (some [3]) (some false)]) := by
  apply decodeFrames_encodeFrames
  · intro f member
    simp only [List.mem_cons, List.not_mem_nil, or_false] at member
    rcases member with rfl | rfl | rfl | rfl | rfl | rfl <;> simp [Frame.WellFormed, maxVarint]
  · intro f member
    simp only [List.dropLast, List.mem_cons, List.not_mem_nil, or_false] at member
    rcases member with rfl | rfl | rfl | rfl | rfl <;> simp [Frame.RunsToEnd]

end Zmux
