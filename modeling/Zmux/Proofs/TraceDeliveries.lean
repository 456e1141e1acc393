import Zmux.Proofs.TraceRuns
import Zmux.Proofs.RecordStreams

/-! Scripts seen from the peer: what they deliver is a trace of its own, and frames that may be sent are right. -/

namespace Zmux

open Wire

section Projection

/-- The call of the peer that a call is, if it is one. -/
def ScriptCall.delivery : ScriptCall → Option Call
  | deliver call => some call
  | _ => none

/-- The step of the peer that a step is, if it is one. -/
def TraceStep.delivery : TraceStep → Option Step
  | deliver step => some step
  | other _ => none

/-- The trace that is left of a script when only the peer is looked at. -/
def Script.delivered (t : Script) : Trace := ⟨t.steps.filterMap TraceStep.delivery, t.peerSent⟩

/-- A trace with some steps in front of its own. -/
def Trace.behind (front : List Step) (t : Trace) : Trace := ⟨front ++ t.steps, t.peerSent⟩

variable {front steps : List Step} {sent : Tally Target}

/-- A step is appended whatever stands in front of it. -/
theorem Trace.add_behind (step : Step) : Trace.add ⟨front ++ steps, sent⟩ step =
    (Trace.add ⟨steps, sent⟩ step).map (Trace.behind front) := by
  -- Steps in front stay in front of the one that is appended.
  have appended : ∀ counted : Tally Target, (⟨front ++ steps ++ [step], counted⟩ : Trace) =
      Trace.behind front ⟨steps ++ [step], counted⟩ := by
    intro counted
    rw [behind, List.append_assoc]
  unfold add
  split
  · split
    · -- What is counted looks at the step itself, and at no other.
      cases countedUnder step.target _ with
      | error fault => rfl
      | ok key =>
        cases placeholderRecordLen _ with
        | error fault => rfl
        | ok length => exact congrArg _ (appended _)
    · exact congrArg _ (appended _)
  · exact congrArg _ (appended _)

/-- A call does the same whatever stands in front of its step. -/
theorem Call.apply_behind (call : Call) : call.apply ⟨front ++ steps, sent⟩ =
    (call.apply ⟨steps, sent⟩).map (Trace.behind front) := by
  -- Each call encodes what it is given, and then appends one step.
  cases call with
  | send pipe records chunks invalid carrier =>
    simp only [apply, Trace.send]
    split
    · exact Trace.add_behind _
    · cases recordBytesDict (.list (records.map .list)) with
      | error fault => rfl
      | ok b =>
        rw [ok_bind, ok_bind]
        exact Trace.add_behind _
  | sendMessages pipe messages given carrier =>
    cases given with
    | some given =>
      simp only [apply, Trace.sendMessages]
      cases sumPositions given with
      | error fault => rfl
      | ok count =>
        rw [ok_bind, ok_bind]
        exact Trace.add_behind _
    | none =>
      simp only [apply, Trace.sendMessages]
      cases (messages.map Value.list).mapM encodeFramesDict with
      | error fault => rfl
      | ok enc =>
        simp only [ok_bind]
        cases sumPositions enc with
        | error fault => rfl
        | ok count =>
          rw [ok_bind, ok_bind]
          exact Trace.add_behind _
  | raw pipe b chunks carrier =>
    simp only [apply, Trace.raw]
    exact Trace.add_behind _

variable {t : Script}

/-- Steps of the peer are all seen by the peer. -/
theorem delivered_steps (steps : List Step) :
    (steps.map TraceStep.deliver).filterMap TraceStep.delivery = steps := by
  rw [List.filterMap_map]
  exact List.filterMap_some

/-- A step of the runner is not seen by the peer. -/
theorem Script.delivered_add (fields : Fields) : (t.add fields).delivered = t.delivered := by
  simp [add, delivered, TraceStep.delivery]

/-- Seen from the peer, delivering bytes is the call of the peer. -/
theorem Script.delivered_deliver (call : Call) :
    (t.deliver call).map Script.delivered = call.apply t.delivered := by
  have front := @Call.apply_behind (t.steps.filterMap TraceStep.delivery) [] t.peerSent call
  rw [List.append_nil] at front
  rw [deliver, delivered, front]
  -- The call is made on no steps, which are appended to those that are there.
  cases call.apply ⟨[], t.peerSent⟩ with
  | error fault => rfl
  | ok next =>
    rw [ok_bind, pure_ok, map_ok, map_ok, delivered, List.filterMap_append, delivered_steps]
    rfl

/-- A call appends one step, whatever it is given. -/
theorem ScriptCall.one_step {call : ScriptCall} {next : Script} (applied : call.apply t = .ok next) :
    ∃ step, Appends t next step := by
  cases call with
  | deliver call =>
    -- A delivery appends the one step of the peer.
    obtain ⟨after, called, steps, header⟩ := deliver_appends applied
    obtain ⟨step, delivers, -⟩ := Call.delivers called
    refine ⟨.deliver step, ?_, header⟩
    rw [steps, delivers.steps]
    rfl
  | expectLocalTp =>
    simp only [apply, Script.expectLocalTp, bind_eq_ok, pure_ok, Except.ok.injEq] at applied
    obtain ⟨params, -, rfl⟩ := applied
    exact ⟨_, rfl, rfl⟩
  | _ =>
    cases applied
    exact ⟨_, rfl, rfl⟩

/-- A call leaves the header as it is. -/
theorem ScriptCall.header_kept {call : ScriptCall} {next : Script} (applied : call.apply t = .ok next) :
    next.header = t.header := by
  obtain ⟨step, -, kept⟩ := one_step applied
  exact kept

/-- Seen from the peer, a call is its delivery, or nothing. -/
theorem ScriptCall.apply_delivered (call : ScriptCall)
    (profiled : call = .expectLocalTp → ∃ params, t.localTp = .ok params) :
    (call.apply t).map Script.delivered =
      match call.delivery with
      | some call => call.apply t.delivered
      | none => .ok t.delivered := by
  cases call with
  | deliver call => exact Script.delivered_deliver call
  | expectLocalTp =>
    -- The parameters are given, so a step of the runner is appended.
    obtain ⟨params, found⟩ := profiled rfl
    rw [apply, Script.expectLocalTp, found, ok_bind, pure_ok, map_ok]
    exact congrArg _ (Script.delivered_add _)
  | _ => exact congrArg _ (Script.delivered_add _)

/--
Seen from the peer, a run of the builder is the run of its deliveries alone.

What it counts, where it stops and what it raises are not changed by the calls between them.
-/
theorem runScript_delivered (calls : List ScriptCall) (t : Script)
    (profiled : .expectLocalTp ∈ calls → ∃ params, t.localTp = .ok params) :
    (runScript calls t).map Script.delivered =
      runCalls (calls.filterMap ScriptCall.delivery) t.delivered := by
  -- The induction is on the calls, the first of which may be a delivery or not.
  induction calls generalizing t with
  | nil => rfl
  | cons call calls ih =>
    have first := call.apply_delivered (t := t) fun same => profiled (by simp [same])
    rw [runScript]
    cases applied : call.apply t with
    | error fault =>
      -- Only a delivery can raise here, and it raises the same for the peer.
      rw [applied] at first
      cases delivers : call.delivery with
      | none =>
        rw [delivers] at first
        cases first
      | some delivery =>
        simp only [delivers] at first
        rw [List.filterMap_cons_some delivers, runCalls, ← first]
        rfl
    | ok next =>
      -- The header stays, and with it the parameters of the profile.
      have kept : next.localTp = t.localTp := by
        rw [Script.localTp, Script.localTp, ScriptCall.header_kept applied]
      have rest := ih next fun member => by
        rw [kept]
        exact profiled (List.mem_cons_of_mem _ member)
      rw [applied, map_ok] at first
      rw [ok_bind, rest]
      cases delivers : call.delivery with
      | none =>
        rw [delivers, Except.ok.injEq] at first
        rw [List.filterMap_cons_none delivers, first]
      | some delivery =>
        simp only [delivers] at first
        rw [List.filterMap_cons_some delivers, runCalls, ← first, ok_bind]

end Projection

section Sound

/-- Records that may be sent, messages that may, or bytes, with chunks that add up to what is sent. -/
def Call.Sound : Call → Prop
  | send _ records chunks _ _ => ∃ rs : List (List Frame),
    records = rs.map (fun fs => fs.map Frame.dict) ∧
    (∀ fs ∈ rs, Sendable Limits.zmuxMaxRecordSize fs none) ∧
    ∀ b, recordBytes rs = .ok b → chunks ≠ [] → chunks.sum = b.length
  | sendMessages _ messages none _ => ∃ ms : List (List Frame),
    messages = ms.map (fun fs => fs.map Frame.dict) ∧
    ∀ fs ∈ ms, Fitting Limits.zmuxMaxRecordSize fs
  | sendMessages _ _ (some messages) _ => ∀ message ∈ messages, message.length ≤ maxVarint
  | raw _ b chunks _ => chunks ≠ [] → chunks.sum = b.length

variable {t : Trace}

/-- Messages that a length can be written for are counted together. -/
theorem sumPositions_eq_ok {messages : List Bytes}
    (small : ∀ message ∈ messages, message.length ≤ maxVarint) :
    ∃ count, sumPositions messages = .ok count := by
  have counts : ∃ counts, messages.mapM messagePosition = .ok counts := by
    -- The induction is on the messages, whose lengths can all be written.
    induction messages with
    | nil => exact ⟨[], rfl⟩
    | cons message messages ih =>
      rw [List.forall_mem_cons] at small
      obtain ⟨counts, rest⟩ := ih small.2
      have first : ∃ count, messagePosition message = .ok count :=
        ⟨_, by rw [messagePosition, encodeVarint_shortest small.1, ok_bind, pure_ok]⟩
      obtain ⟨count, counted⟩ := first
      exact ⟨count :: counts, by rw [List.mapM_cons, counted, ok_bind, rest, ok_bind, pure_ok]⟩
  obtain ⟨counts, counted⟩ := counts
  exact ⟨counts.sum, by rw [sumPositions, counted, ok_bind, pure_ok]⟩

/-- Messages that may be sent are encoded, each within the limit. -/
theorem encodeMessages {ms : List (List Frame)}
    (fitting : ∀ fs ∈ ms, Fitting Limits.zmuxMaxRecordSize fs) :
    ∃ enc, (ms.map fun fs => Value.list (fs.map Frame.dict)).mapM encodeFramesDict = .ok enc ∧
      ∀ message ∈ enc, message.length ≤ maxVarint := by
  -- The induction is on the messages, each of which is encoded by itself.
  induction ms with
  | nil => exact ⟨[], rfl, by simp⟩
  | cons fs ms ih =>
    rw [List.forall_mem_cons] at fitting
    obtain ⟨enc, rest, small⟩ := ih fitting.2
    obtain ⟨body, encoded, -, -⟩ := fitting.1.message
    have first : encodeFramesDict (.list (fs.map Frame.dict)) = .ok body := by
      rw [encodeFramesDict, framesOf_dicts, encodeRead, encoded]
    -- The limit of a record is far below what a length can be written for.
    have bound := fitting.1.sized body encoded
    refine ⟨body :: enc, ?_, ?_⟩
    · rw [List.map_cons, List.mapM_cons, first, ok_bind, rest, ok_bind, pure_ok]
    · rw [List.forall_mem_cons]
      refine ⟨?_, small⟩
      rw [Limits.zmuxMaxRecordSize] at bound
      rw [maxVarint]
      omega

/-- The lists of frames that a call is given are the form of its records. -/
theorem recordsForm_eq (rs : List (List Frame)) :
    Value.list ((rs.map fun fs => fs.map Frame.dict).map .list) = recordsForm rs := by
  rw [List.map_map]
  rfl

/-- Frames that may be sent are read back from their JSON form. -/
theorem recordsForm_recoverable {rs : List (List Frame)}
    (formed : ∀ fs ∈ rs, ∀ f ∈ fs, f.WellFormed) : (recordsForm rs).Recoverable := by
  apply itemsRecoverable_iff.mpr
  simp only [List.forall_mem_map]
  -- Every record is a list of frames, each of which is read back.
  intro fs listed
  apply itemsRecoverable_iff.mpr
  simp only [List.forall_mem_map]
  intro f member
  exact (formed fs listed f member).documented.recoverable

/-- Records of frames are sent with the bytes that they are encoded to, which are counted. -/
theorem Trace.send_form {rs : List (List Frame)} {b : Bytes} (encoded : recordBytes rs = .ok b)
    (pipe : Option Nat) (chunks : List Nat) (invalid : Bool) (carrier : Option String) :
    t.send pipe (rs.map fun fs => fs.map Frame.dict) chunks invalid carrier = .ok
      ⟨t.steps ++ [⟨target pipe carrier, some (recordsForm rs), invalid, some b, none, none, chunks⟩],
        t.peerSent.add (target pipe carrier) b.length⟩ := by
  -- Frames leave nothing to be filled in.
  have plain : (recordsForm rs).hasPlaceholder = false := by
    rw [recordsForm]
    simp [Frame.dict_plain]
  simp only [send, recordsForm_eq, plain, (recordBytesDict_form rs).trans encoded,
    Bool.false_eq_true, if_false, ok_bind]
  rw [Trace.add_hex _ rfl]

/-- What is sound is delivered, and is what it is said to be. -/
theorem Call.Sound.delivers {call : Call} (sound : call.Sound) (t : Trace) :
    (∃ next, call.apply t = .ok next) ∧ call.Consistent ∧ call.Documented := by
  cases call with
  | send pipe records chunks invalid carrier =>
    obtain ⟨rs, rfl, sendable, whole⟩ := sound
    -- The records are read back, and their bytes decode to the frames.
    have recoverable : (recordsForm rs).Recoverable :=
      recordsForm_recoverable fun fs listed => (sendable fs listed).formed
    have each : ∀ record ∈ rs.map fun fs => (fs, (none : Option Nat)),
        Sendable Limits.zmuxMaxRecordSize record.1 record.2 := by
      intro record member
      obtain ⟨fs, listed, rfl⟩ := List.mem_map.mp member
      exact sendable fs listed
    obtain ⟨b, joined, read⟩ := items_joinBytes each
    rw [List.map_map] at joined
    have encoded : recordBytes rs = .ok b := joined
    refine ⟨⟨_, Trace.send_form encoded pipe chunks invalid carrier⟩, ?_, ?_⟩
    · rw [Consistent, recordsForm_eq, (recordBytesDict_form rs).trans encoded]
      -- The bytes are those of the records, so they decode, and the chunks add up to them.
      rintro - b ⟨⟩
      exact ⟨fun _ _ => ⟨_, decodeStream_eq_ok.mpr read⟩, whole b encoded⟩
    · rw [Documented, recordsForm_eq]
      exact recoverable
  | sendMessages pipe messages given carrier =>
    cases given with
    | some given =>
      -- The messages are given as bytes, whose lengths can be counted.
      obtain ⟨count, counted⟩ := sumPositions_eq_ok sound
      refine ⟨?_, trivial, trivial⟩
      simp only [apply, Trace.sendMessages, counted, ok_bind]
      rw [Trace.add_bare _ rfl]
      exact ⟨_, rfl⟩
    | none =>
      -- The messages are encoded first, each within the limit.
      obtain ⟨ms, rfl, fitting⟩ := sound
      obtain ⟨enc, encoded, small⟩ := encodeMessages fitting
      obtain ⟨count, counted⟩ := sumPositions_eq_ok small
      refine ⟨?_, trivial, ?_⟩
      · have forms : ms.map (Value.list ∘ fun fs => fs.map Frame.dict) =
          ms.map fun fs => .list (fs.map Frame.dict) := rfl
        simp only [apply, Trace.sendMessages, List.map_map, forms, encoded, counted, ok_bind]
        rw [Trace.add_bare _ rfl]
        exact ⟨_, rfl⟩
      · simp only [Documented, List.forall_mem_map]
        intro fs listed
        apply itemsRecoverable_iff.mpr
        simp only [List.forall_mem_map]
        intro f member
        exact ((fitting fs listed).formed f member).documented.recoverable
  | raw pipe b chunks carrier =>
    refine ⟨?_, sound, trivial⟩
    simp only [apply, Trace.raw]
    rw [Trace.add_hex _ rfl]
    exact ⟨_, rfl⟩

/-- A call that goes through and is right: a sound delivery, or another call that is legal where it stands. -/
def ScriptCall.Sound (header : Header) (binds : List String) : ScriptCall → Prop
  | deliver call => call.Sound
  | expectLocalTp => ∃ params, (Script.fresh header).localTp = .ok params
  | call => call.Documented ∧ call.Legal binds

/-- Calls that are sound one after the other. -/
def SoundFrom (header : Header) (binds : List String) : List ScriptCall → Prop
  | [] => True
  | call :: calls => call.Sound header binds ∧ SoundFrom header (binds ++ call.bound) calls

/-- A sound call goes through, and is documented and legal. -/
theorem ScriptCall.Sound.applies {call : ScriptCall} {t : Script} {binds : List String}
    (sound : call.Sound t.header binds) :
    (∃ next, call.apply t = .ok next) ∧ call.Documented ∧ call.Legal binds := by
  cases call with
  | deliver call =>
    -- A delivery does not look at the steps in front of it.
    obtain ⟨⟨next, applied⟩, consistent, documented⟩ := Call.Sound.delivers sound ⟨[], t.peerSent⟩
    refine ⟨?_, documented, consistent⟩
    rw [apply, Script.deliver, applied, ok_bind, pure_ok]
    exact ⟨_, rfl⟩
  | expectLocalTp =>
    obtain ⟨params, found⟩ := sound
    have same : t.localTp = .ok params := found
    refine ⟨?_, trivial, trivial⟩
    rw [apply, Script.expectLocalTp, same, ok_bind, pure_ok]
    exact ⟨_, rfl⟩
  | _ => exact ⟨⟨_, rfl⟩, sound⟩

/-- Sound calls go through, each of them documented and legal. -/
theorem SoundFrom.runs {calls : List ScriptCall} {t : Script} {binds : List String}
    (sound : SoundFrom t.header binds calls) : (∃ next, runScript calls t = .ok next) ∧
      (∀ call ∈ calls, call.Documented) ∧ LegalFrom binds calls := by
  -- The induction is on the calls, with the handles that those in front have bound.
  induction calls generalizing t binds with
  | nil => exact ⟨⟨t, rfl⟩, by simp, trivial⟩
  | cons call calls ih =>
    obtain ⟨⟨next, applied⟩, documented, legal⟩ := sound.1.applies
    have rest := sound.2
    -- The header stays, so what is sound for it stays sound.
    rw [← ScriptCall.header_kept applied] at rest
    obtain ⟨⟨last, run⟩, others, later⟩ := ih rest
    refine ⟨⟨last, ?_⟩, List.forall_mem_cons.mpr ⟨documented, others⟩, legal, later⟩
    rw [runScript, applied, ok_bind, run]

/-- A script of sound calls is written to its end, and nothing is wrong with its file. -/
theorem soundScript_checked (refOk : String → Bool) (header : Header) (calls : List ScriptCall)
    (known : header.Known refOk) (sound : SoundFrom header [] calls) (enough : 2 ≤ calls.length) :
    ∃ t, runScript calls (Script.fresh header) = .ok t ∧ checkTrace refOk t.toLines = .ok [] := by
  obtain ⟨⟨t, run⟩, documented, legal⟩ := @SoundFrom.runs calls (Script.fresh header) [] sound
  -- Every step is written as its call says, and its line is right since the call is legal.
  obtain ⟨steps, held, same, written⟩ := runScript_appends documented run
  rw [show steps = t.steps from held.symm] at written
  refine ⟨t, run, (checkTrace_eq_nil written).mpr ⟨?_, legal, enough⟩⟩
  rw [same]
  exact known

/-- A frame in two pieces, two messages, and bytes, on a pipe that is opened first. -/
theorem soundScript_checked_small : ∃ t, runScript [
    .up (some 0) "bidi" (some "bootstrap") [],
    .expectLocalTp,
    .deliver (.send (some 0) [[(Frame.maxData 5).dict]] [1, 2] false none),
    .deliver (.sendMessages (some 0) [[(Frame.maxData 5).dict], []] none none),
    .deliver (.raw (some 0) [1, 2, 3] [] none)]
    (Script.fresh ⟨"a.b", "t", [], "zmux-small", "responder", []⟩) = .ok t ∧
      checkTrace (fun _ => true) t.toLines = .ok [] := by
  have body : encodeFrames [.maxData 5] = .ok [16, 5] := rfl
  have formed : (Frame.maxData 5).WellFormed := by simp [Frame.WellFormed, maxVarint]
  -- The one frame of the run may be sent in a record of its own.
  have record : Sendable Limits.zmuxMaxRecordSize [.maxData 5] none := by
    refine ⟨List.forall_mem_singleton.mpr formed, by simp, ?_, ?_⟩
    · rw [body]
      rintro body ⟨⟩
      decide
    · rw [body]
      rintro body ⟨⟩
      exact legal_shortest_iff.mpr (by simp [maxVarint])
  have message : Fitting Limits.zmuxMaxRecordSize [.maxData 5] :=
    ⟨record.formed, record.last, fun body encoded => (record.sized body encoded).2⟩
  -- A message may be without frames.
  have nothing : Fitting Limits.zmuxMaxRecordSize [] := by
    refine ⟨by simp, by simp, ?_⟩
    rintro body ⟨⟩
    exact Nat.zero_le _
  apply soundScript_checked
  · simp [Header.Known, profiles]
  · refine ⟨⟨⟨by simp, by simp⟩, ?_⟩, ⟨_, rfl⟩, ?_, ?_, ?_, trivial⟩
    · simp [ScriptCall.Legal, given]
    · refine ⟨[[.maxData 5]], rfl, List.forall_mem_singleton.mpr record, ?_⟩
      rintro b ⟨⟩ -
      rfl
    · exact ⟨[[.maxData 5], []], rfl, by simp [message, nothing]⟩
    · intro whole
      exact absurd rfl whole
  · decide

end Sound

section Handshake

variable {t : Script}

/-- The calls that a handshake is made of. -/
def handshakeCalls (peerTps : Fields) (grease : Option (Nat × Bytes))
    (names : Option (List String)) (role : Option String) (carrier : Fields) : List ScriptCall := [
  .up (some 0) "bidi" (some "bootstrap") carrier,
  .expectLocalTp,
  .deliver (.send (some 0) [[tpFrame (tpList peerTps grease)]] [] false none),
  .event "established" (optional "features" (fun names => .list (names.map .str)) names
    ++ optional "role" .str role)]

/-- A handshake is the run of its calls. -/
theorem handshake_eq (peerTps : Fields) (grease : Option (Nat × Bytes))
    (names : Option (List String)) (role : Option String) (carrier : Fields) :
    t.handshake peerTps grease names role carrier =
      runScript (handshakeCalls peerTps grease names role carrier) t := by
  simp only [Script.handshake, handshakeCalls, runScript, ScriptCall.apply, ok_bind]
  -- The calls are made in turn, and the first one that raises ends both.
  cases (t.up (some 0) "bidi" (some "bootstrap") carrier).expectLocalTp with
  | error fault => rfl
  | ok next =>
    simp only [ok_bind]
    cases next.deliver _ <;> rfl

/-- Named parameters with their values. -/
abbrev NamedTps := List (TpName × TpValue)

/-- The fields that named parameters are given as. -/
def NamedTps.fields (params : NamedTps) : Fields :=
  params.map fun param => (param.1.text, param.2.form)

/-- The parameters in the frame of a handshake: the named ones, and one more that must be ignored. -/
def NamedTps.sent (params : NamedTps) (grease : Option (Nat × Bytes)) : List Param :=
  params.map (fun param => ⟨.name param.1, .value param.2⟩)
    ++ grease.toList.map fun grease => ⟨.num grease.1, .raw grease.2⟩

/-- The dict of the frame of a handshake is that of the block that is sent. -/
theorem tpFrame_eq (params : NamedTps) (grease : Option (Nat × Bytes)) :
    tpFrame (tpList params.fields grease) =
      (Frame.qxTransportParameters (.params (params.sent grease))).dict := by
  simp only [tpFrame, tpList, NamedTps.fields, NamedTps.sent, Frame.dict, Frame.parts, List.map_map,
    List.map_append]
  rfl

/-- The calls of a handshake are sound when its frame may be sent, on a carrier that may be given. -/
theorem handshakeCalls_sound {header : Header} {params : NamedTps} {grease : Option (Nat × Bytes)}
    {names : Option (List String)} {role : Option String} {carrier : Fields}
    (profiled : ∃ params, (Script.fresh header).localTp = .ok params)
    (sendable : Sendable Limits.zmuxMaxRecordSize
      [.qxTransportParameters (.params (params.sent grease))] none)
    (featured : ∀ listed ∈ names, ∀ name ∈ listed, name ∈ features) (distinct : DistinctKeys carrier)
    (allowed : EveryField (fun key _ => key ∈ ["oob_join", "carrier_binding", "pairing", "framing",
      "source", "conn"]) carrier) :
    SoundFrom header [] (handshakeCalls params.fields grease names role carrier) := by
  refine ⟨⟨⟨distinct, ?_⟩, ?_⟩, profiled, ?_, ⟨trivial, ?_⟩, trivial⟩
  · -- The keywords of the carrier are none of the fields in front of them.
    intro field member
    have own := allowed field member
    simp only [List.mem_cons, List.not_mem_nil, or_false] at own
    rcases own with same | same | same | same | same | same <;> simp [same]
  · -- The pipe is given, and no carrier in its place.
    have bare : hasField carrier "carrier" = false := by
      apply hasField_new
      intro field member same
      have own := allowed field member
      simp [same] at own
    refine ⟨?_, ?_⟩
    · intro field member
      exact List.mem_cons_of_mem _ (allowed field member)
    · simp [bare, given]
  · refine ⟨[[.qxTransportParameters (.params (params.sent grease))]], ?_, by simpa using sendable, ?_⟩
    · rw [tpFrame_eq]
      rfl
    · -- The record is not cut.
      intro b _ whole
      exact absurd rfl whole
  · refine ⟨by simp [traceEvents], fun _ => ?_⟩
    -- The features are given, or there are none.
    cases names with
    | none => simp [eachAmong_list]
    | some listed => simpa [eachAmong_list, among_str] using featured listed rfl

/--
A handshake sends the parameters of the peer, in their order and with the one to ignore behind them.

Its file is right, and its counter is the length of what was sent.
-/
theorem handshake_delivers (refOk : String → Bool) (header : Header) (known : header.Known refOk)
    (profiled : ∃ params, (Script.fresh header).localTp = .ok params) (params : NamedTps)
    (grease : Option (Nat × Bytes)) (sendable : Sendable Limits.zmuxMaxRecordSize
      [.qxTransportParameters (.params (params.sent grease))] none)
    (names : Option (List String)) (featured : ∀ listed ∈ names, ∀ name ∈ listed, name ∈ features)
    (role : Option String) (carrier : Fields) (distinct : DistinctKeys carrier)
    (allowed : EveryField (fun key _ => key ∈ ["oob_join", "carrier_binding", "pairing", "framing",
      "source", "conn"]) carrier) :
    ∃ t step b, (Script.fresh header).handshake params.fields grease names role carrier = .ok t ∧
      checkTrace refOk t.toLines = .ok [] ∧ t.delivered.steps = [step] ∧ step.hex = some b ∧
      t.peerSent.count (.pipe (some 0)) = b.length ∧
      decodeStream b Limits.zmuxMaxRecordSize =
        .ok [[.qxTransportParameters (.params (params.sent grease))]] := by
  -- All calls of the handshake are sound, so its file is right.
  have sound := @handshakeCalls_sound _ _ _ _ role _ profiled sendable featured distinct allowed
  obtain ⟨⟨t, run⟩, documented, legal⟩ := @SoundFrom.runs _ (Script.fresh header) [] sound
  obtain ⟨steps, held, same, written⟩ := runScript_appends documented run
  rw [show steps = t.steps from held.symm] at written
  have right : checkTrace refOk t.toLines = .ok [] := by
    refine (checkTrace_eq_nil written).mpr ⟨?_, legal, ?_⟩
    · rw [same]
      exact known
    · simp [handshakeCalls]
  -- Seen from the peer, the handshake is the one call that sends the frame.
  have seen := runScript_delivered (handshakeCalls params.fields grease names role carrier)
    (Script.fresh header) (fun _ => profiled)
  rw [run, map_ok] at seen
  -- The one record is encoded, and its bytes are read as the frame.
  obtain ⟨b, joined, read⟩ := @items_joinBytes Limits.zmuxMaxRecordSize
    [([.qxTransportParameters (.params (params.sent grease))], none)] (by simpa using sendable)
  have encoded : recordBytes [[.qxTransportParameters (.params (params.sent grease))]] = .ok b :=
    joined
  have sent : Trace.fresh.send (some 0) [[tpFrame (tpList params.fields grease)]] [] false none =
      .ok ⟨[⟨.pipe (some 0), some (recordsForm
        [[.qxTransportParameters (.params (params.sent grease))]]), false, some b, none, none, []⟩],
        Tally.empty.add (.pipe (some 0)) b.length⟩ := by
    rw [tpFrame_eq]
    exact Trace.send_form encoded (some 0) [] false none
  have only : runCalls [.send (some 0) [[tpFrame (tpList params.fields grease)]] [] false none]
      Trace.fresh = .ok t.delivered := seen.symm
  rw [runCalls, Call.apply, sent, ok_bind, runCalls, Except.ok.injEq] at only
  -- The one step of the peer is counted by its bytes, and nothing else is.
  have counted : t.peerSent = Tally.empty.add (.pipe (some 0)) b.length :=
    (congrArg Trace.peerSent only).symm
  refine ⟨t, _, b, ?_, right, (congrArg Trace.steps only).symm, rfl, ?_, decodeStream_eq_ok.mpr read⟩
  · rw [handshake_eq, run]
  · simp [counted, Tally.count_add]

/-- The block with one number and one parameter to ignore may be sent. -/
theorem smallTps_sendable : Sendable Limits.zmuxMaxRecordSize [.qxTransportParameters (.params
    (NamedTps.sent [(.initialMaxData, .varint 1024)] (some (58, [0xAB, 0xCD]))))] none := by
  have block : encodeTps (NamedTps.sent [(.initialMaxData, .varint 1024)]
      (some (58, [0xAB, 0xCD]))) = .ok [4, 2, 68, 0, 58, 2, 171, 205] := rfl
  have body : encodeFrames [.qxTransportParameters (.params (NamedTps.sent
      [(.initialMaxData, .varint 1024)] (some (58, [0xAB, 0xCD]))))] =
        .ok [255, 81, 83, 48, 13, 10, 13, 10, 8, 4, 2, 68, 0, 58, 2, 171, 205] := rfl
  -- The parameters are in range, and their names come once.
  have formed : WellFormedTps (NamedTps.sent [(.initialMaxData, .varint 1024)]
      (some (58, [0xAB, 0xCD]))) := by
    refine ⟨?_, by decide, ⟨_, rfl⟩, ?_⟩
    · simp only [NamedTps.sent, List.map_cons, List.map_nil, Option.toList_some,
        List.singleton_append, List.forall_mem_cons]
      refine ⟨⟨⟨_, .varint, rfl, by decide, rfl, trivial⟩, ?_⟩, ⟨rfl, ?_⟩, by simp⟩
      · simp [Param.InRange, TpValue.InRange, maxVarint]
      · simp [Param.InRange, maxVarint]
    · rw [block]
      rintro body ⟨⟩
      decide
  refine ⟨List.forall_mem_singleton.mpr formed, by simp, ?_, ?_⟩
  · rw [body]
    rintro body ⟨⟩
    decide
  · rw [body]
    rintro body ⟨⟩
    exact legal_shortest_iff.mpr (by simp [maxVarint])

/-- A block of one number and the one to ignore, on a carrier with a framing of its own. -/
theorem handshake_delivers_small : ∃ t step b,
    (Script.fresh ⟨"a.b", "t", [], "zmux-small", "responder", []⟩).handshake
      (NamedTps.fields [(.initialMaxData, .varint 1024)]) (some (58, [0xAB, 0xCD]))
      (some ["goaway"]) none [("framing", .str "records")] = .ok t ∧
    checkTrace (fun _ => true) t.toLines = .ok [] ∧ t.delivered.steps = [step] ∧ step.hex = some b ∧
    t.peerSent.count (.pipe (some 0)) = b.length ∧
    decodeStream b Limits.zmuxMaxRecordSize = .ok [[.qxTransportParameters (.params
      (NamedTps.sent [(.initialMaxData, .varint 1024)] (some (58, [0xAB, 0xCD]))))]] := by
  apply handshake_delivers _ _ _ _ _ _ smallTps_sendable
  · simp [features]
  · simp
  · simp
  · simp [Header.Known, profiles]
  · exact ⟨_, rfl⟩

end Handshake

end Zmux
