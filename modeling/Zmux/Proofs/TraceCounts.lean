import Zmux.Codec.TraceDsl
import Zmux.Codec.VarintLaws

/-! The bytes that a trace counts for the peer are those its steps deliver, but for one kind of call. -/

namespace Zmux

open Wire

/-- The bytes that a step delivers: its own, those of its messages, or those of its records. -/
def Step.delivered (step : Step) : Except Failure Nat :=
  match step.hex, step.messagesHex with
  | some bytes, _ => .ok bytes.length
  | none, some texts => do
    let messages ← texts.mapM fromHex
    sumPositions messages
  | none, none =>
    match step.records with
    | some records => placeholderRecordLen records
    | none => .ok 0

/-- The bytes of a step, where their number is known. -/
def Step.amount (step : Step) : Nat := step.delivered.toOption.getD 0

/-- What the bytes of a step are counted under. -/
def Step.credited (step : Step) : Target :=
  match step.hex, step.records with
  | none, some records =>
    if records.hasPlaceholder then (countedUnder step.target records).toOption.getD step.target
    else step.target
  | _, _ => step.target

/-- The bytes that the steps for a target deliver, all together. -/
def Trace.delivered (t : Trace) (key : Target) : Except Failure Nat := do
  let amounts ← (t.steps.filter fun step => step.target = key).mapM Step.delivered
  return amounts.sum

/-- Records with a placeholder that begin with a join, and are sent to no pipe by its number. -/
def Call.Moved : Call → Prop
  | send pipe records _ _ carrier =>
    (carrier ≠ none ∨ pipe = none) ∧
    (Value.list (records.map .list)).hasPlaceholder = true ∧
    ((firstFrame (.list (records.map .list))).lookup "type").bind Value.text =
      some FrameName.pipeJoin.text
  | _ => False

instance (call : Call) : Decidable call.Moved :=
  match call with
  | .send .. => inferInstanceAs (Decidable (_ ∧ _ ∧ _))
  | .sendMessages .. | .raw .. => inferInstanceAs (Decidable False)

/-- A trace whose counters are the totals of its steps, by what they are counted under. -/
structure Trace.Counted (t : Trace) : Prop where
  known : ∀ step ∈ t.steps, ∃ amount, step.delivered = .ok amount
  counts : ∀ key, t.peerSent.count key = totalBy Step.credited Step.amount t.steps key

/-- What a call does to a trace: it appends one step, and counts the bytes of that step. -/
structure Delivers (t next : Trace) (step : Step) : Prop where
  steps : next.steps = t.steps ++ [step]
  known : step.delivered = .ok step.amount
  counted : next.peerSent = t.peerSent.add step.credited step.amount

/-- The amount of a step is what it delivers, where that is known. -/
theorem Step.amount_eq {step : Step} {amount : Nat} (known : step.delivered = .ok amount) :
    step.amount = amount := by
  rw [Step.amount, known]
  rfl

/-- Records are counted under their target, or under the pipe of the join that they begin with. -/
theorem countedUnder_eq_ok {named key : Target} {records : Value}
    (counted : countedUnder named records = .ok key) :
    (key = named ∧ ((∃ id, named = .pipe (some id)) ∨
      ((firstFrame records).lookup "type").bind Value.text ≠ some FrameName.pipeJoin.text)) ∨
    ((∀ id, named ≠ .pipe (some id)) ∧
      ((firstFrame records).lookup "type").bind Value.text = some FrameName.pipeJoin.text ∧
      ∃ id, key = .pipe (some id)) := by
  -- A pipe that is named by its number counts its own bytes, whatever is sent.
  unfold countedUnder at counted
  split at counted
  · rename_i id
    cases counted
    exact .inl ⟨rfl, .inl ⟨id, rfl⟩⟩
  · rename_i other
    dsimp only at counted
    split at counted
    -- The join must name its pipe by a number.
    · rename_i joined
      simp only [bind_eq_ok] at counted
      obtain ⟨pipe, -, counted⟩ := counted
      split at counted
      · rename_i id _
        rw [pure_ok, Except.ok.injEq] at counted
        exact .inr ⟨other, joined, id, counted.symm⟩
      · cases counted
    · rename_i different
      cases counted
      exact .inl ⟨rfl, .inr different⟩

/-- A step on a pipe is credited to the pipe. -/
theorem Step.credited_pipe {step : Step} {id : Nat} (named : step.target = .pipe (some id)) :
    step.credited = step.target := by
  have under : ∀ records, countedUnder step.target records = .ok step.target := by
    intro records
    rw [named]
    rfl
  unfold Step.credited
  split
  · rw [under, Except.toOption, Option.getD_some, ite_self]
  · rfl

section Lengths

/-- A record takes at least the byte of its size. -/
theorem encodeRecord_positive {frames : List Frame} {bytes : Bytes}
    (encoded : encodeRecord frames = .ok bytes) : 0 < bytes.length := by
  simp only [encodeRecord, bind_eq_ok, encodeVarint_eq_ok, pure_ok, Except.ok.injEq] at encoded
  obtain ⟨body, -, size, ⟨fits, rfl⟩, rfl⟩ := encoded
  have legal := legal_shortest_iff.mpr fits
  rw [List.length_append, varintForm_length legal]
  have positive := varint_positive legal
  omega

/-- Records that begin with a frame have bytes, whatever is filled in for their placeholders. -/
theorem placeholderRecordLen_positive {records : Value} {length : Nat}
    (first : firstFrame records ≠ []) (counted : placeholderRecordLen records = .ok length) :
    0 < length := by
  -- There is a first frame only where there is a first record.
  unfold firstFrame at first
  split at first
  · rename_i fields frames others
    simp only [placeholderRecordLen, bind_eq_ok, pure_ok, Except.ok.injEq] at counted
    obtain ⟨bytes, encoded, rfl⟩ := counted
    -- There is a first record, and its size takes a byte.
    rw [recordBytesDict, encodeRead.eq_def] at encoded
    split at encoded
    · rename_i read found
      simp only [Value.standIn, itemsStandIn, recordsOf, Value.items, List.mapM_cons,
        Option.bind_eq_bind, Option.bind_eq_some_iff, Option.pure_def, Option.some.injEq] at found
      obtain ⟨record, -, rest, -, rfl⟩ := found
      simp only [recordBytes, List.map_cons, joinBytes, bind_eq_ok, pure_ok,
        Except.ok.injEq] at encoded
      obtain ⟨head, encoded, tail, -, rfl⟩ := encoded
      have positive := encodeRecord_positive encoded
      rw [List.length_append]
      omega
    · cases encoded
  · exact absurd rfl first

end Lengths

section Calls

variable {t next : Trace} {pipe : Option Nat} {carrier : Option String} {chunks : List Nat}

/-- A call has no pipe by its number when it names a carrier, or nothing at all. -/
theorem target_unnumbered : (∀ id, target pipe carrier ≠ .pipe (some id)) ↔
    carrier ≠ none ∨ pipe = none := by
  -- A carrier is preferred to a pipe, so each of the four cases is read off.
  cases carrier <;> cases pipe <;> simp [target]

/-- The texts of messages are read back as the messages. -/
theorem mapM_fromHex (messages : List Bytes) :
    (messages.map hexText).mapM fromHex = .ok messages := by
  -- The induction is on the messages, whose texts are read one by one.
  induction messages with
  | nil => rfl
  | cons msg messages ih =>
    rw [List.map_cons, List.mapM_cons, fromHex, readHex_hexText, ih]
    rfl

/-- A step with bytes of its own is appended as it is. -/
theorem Trace.add_hex (t : Trace) {step : Step} {bytes : Bytes} (own : step.hex = some bytes) :
    t.add step = .ok ⟨t.steps ++ [step], t.peerSent⟩ := by
  rw [Trace.add, own]

/-- A step without records is appended as it is. -/
theorem Trace.add_bare (t : Trace) {step : Step} (bare : step.records = none) :
    t.add step = .ok ⟨t.steps ++ [step], t.peerSent⟩ := by
  rw [Trace.add, bare]
  split <;> trivial

/-- Bytes as they are are delivered and credited to their target. -/
theorem Trace.raw_delivers {b : Bytes} (applied : t.raw pipe b chunks carrier = .ok next) :
    ∃ step, Delivers t next step ∧ step.credited = step.target := by
  rw [Trace.raw, Trace.add_hex _ rfl, Except.ok.injEq] at applied
  subst applied
  exact ⟨_, ⟨rfl, rfl, rfl⟩, rfl⟩

/-- Messages are delivered and credited to their target. -/
theorem Trace.sendMessages_delivers {messages : List (List Value)} {given : Option (List Bytes)}
    (applied : t.sendMessages pipe messages given carrier = .ok next) :
    ∃ step, Delivers t next step ∧ step.credited = step.target := by
  -- Whichever way the messages are given, the step has their texts.
  have one : ∀ (sources : Option Value) (whole : List Bytes) (count : Nat),
      sumPositions whole = .ok count →
      Step.delivered ⟨target pipe carrier, none, false, none, sources, some (whole.map hexText), []⟩ =
        .ok count := by
    intro sources whole count summed
    simp only [Step.delivered, mapM_fromHex, ok_bind, summed]
  -- The bytes are those that are given, or those that the frames are encoded to.
  unfold Trace.sendMessages at applied
  split at applied
  · simp only [bind_eq_ok] at applied
    obtain ⟨count, summed, applied⟩ := applied
    have delivered := one none _ _ summed
    rw [Trace.add_bare _ rfl, Except.ok.injEq] at applied
    subst applied
    refine ⟨_, ⟨rfl, ?_, ?_⟩, rfl⟩
    · rw [Step.amount_eq delivered, delivered]
    · rw [Step.amount_eq delivered]
      rfl
  · simp only [bind_eq_ok] at applied
    obtain ⟨enc, -, count, summed, applied⟩ := applied
    have delivered := one (some (.list (messages.map .list))) _ _ summed
    rw [Trace.add_bare _ rfl, Except.ok.injEq] at applied
    subst applied
    refine ⟨_, ⟨rfl, ?_, ?_⟩, rfl⟩
    · rw [Step.amount_eq delivered, delivered]
    · rw [Step.amount_eq delivered]
      rfl

/-- Records without a placeholder are counted under the target of the call. -/
theorem Trace.send_plain {records : List (List Value)} {invalid : Bool}
    (plain : (Value.list (records.map .list)).hasPlaceholder = false)
    (applied : t.send pipe records chunks invalid carrier = .ok next) :
    ∃ step, Delivers t next step ∧ step.credited = step.target := by
  simp only [Trace.send, plain, Bool.false_eq_true, if_false, bind_eq_ok] at applied
  -- The records are encoded at once, so the step has bytes of its own.
  obtain ⟨b, -, applied⟩ := applied
  rw [Trace.add_hex _ rfl, Except.ok.injEq] at applied
  subst applied
  exact ⟨_, ⟨rfl, rfl, rfl⟩, rfl⟩

/-- Records with a placeholder are counted when the step is appended, by its own rule. -/
theorem Trace.send_placeholder {records : List (List Value)} {invalid : Bool}
    (held : (Value.list (records.map .list)).hasPlaceholder = true)
    (applied : t.send pipe records chunks invalid carrier = .ok next) :
    ∃ step, Delivers t next step ∧ step.target = target pipe carrier ∧
      countedUnder (target pipe carrier) (.list (records.map .list)) = .ok step.credited ∧
      placeholderRecordLen (.list (records.map .list)) = .ok step.amount := by
  simp only [Trace.send, held, if_true, Trace.add, bind_eq_ok, pure_ok, Except.ok.injEq] at applied
  obtain ⟨key, named, length, counted, rfl⟩ := applied
  -- The step keeps its records, and is counted with what stands in for the placeholders.
  let step : Step :=
    ⟨target pipe carrier, some (.list (records.map .list)), invalid, none, none, none, chunks⟩
  have delivered : step.delivered = .ok length := counted
  have credited : step.credited = key := by
    simp only [Step.credited, step, held, if_true, named, Except.toOption, Option.getD_some]
  have amount := Step.amount_eq delivered
  refine ⟨step, ⟨rfl, ?_, ?_⟩, rfl, ?_, ?_⟩
  · rw [amount, delivered]
  · rw [amount, credited]
  · rw [credited, named]
  · rw [amount, counted]

/-- A call appends one step, whose bytes are moved to another target exactly in one kind of call. -/
theorem Call.delivers {call : Call} (applied : call.apply t = .ok next) :
    ∃ step, Delivers t next step ∧ (¬ call.Moved → step.credited = step.target) ∧
      (call.Moved → step.target ≠ step.credited ∧ 0 < step.amount ∧
        ∃ id, step.credited = .pipe (some id)) := by
  cases call with
  | send pipe records chunks invalid carrier =>
    cases held : (Value.list (records.map .list)).hasPlaceholder with
    | false =>
      -- Without a placeholder nothing is moved, whatever the first frame is.
      obtain ⟨step, delivers, same⟩ := Trace.send_plain held applied
      refine ⟨step, delivers, fun _ => same, ?_⟩
      intro moved
      have other : (Value.list (records.map .list)).hasPlaceholder = true := moved.2.1
      rw [held] at other
      cases other
    | true =>
      obtain ⟨step, delivers, aimed, named, counted⟩ := Trace.send_placeholder held applied
      refine ⟨step, delivers, ?_, ?_⟩
      · intro stays
        rcases countedUnder_eq_ok named with ⟨same, -⟩ | ⟨unnumbered, joined, -⟩
        · rw [same, aimed]
        · exact absurd ⟨target_unnumbered.mp unnumbered, held, joined⟩ stays
      · rintro ⟨unnumbered, -, joined⟩
        have other := target_unnumbered.mpr unnumbered
        -- There is a first frame, so the step has bytes that are moved.
        have first : firstFrame (.list (records.map .list)) ≠ [] := by
          intro nothing
          rw [nothing] at joined
          cases joined
        have positive := placeholderRecordLen_positive first counted
        -- The rule of such records names the pipe of the join.
        rcases countedUnder_eq_ok named with ⟨-, numbered | different⟩ | ⟨-, -, id, credited⟩
        · obtain ⟨id, same⟩ := numbered
          exact absurd same (other id)
        · exact absurd joined different
        · refine ⟨?_, positive, id, credited⟩
          rw [credited, aimed]
          exact other id
  | sendMessages pipe messages given carrier =>
    obtain ⟨step, delivers, same⟩ := Trace.sendMessages_delivers applied
    exact ⟨step, delivers, fun _ => same, fun moved => moved.elim⟩
  | raw pipe b chunks carrier =>
    obtain ⟨step, delivers, same⟩ := Trace.raw_delivers applied
    exact ⟨step, delivers, fun _ => same, fun moved => moved.elim⟩

end Calls

section Runs

variable {t next : Trace}

/-- A step that is appended is known, and counted under its own target or another. -/
theorem Trace.Counted.step {step : Step} (counted : t.Counted) (delivers : Delivers t next step) :
    next.Counted where
  known := by
    rw [delivers.steps]
    intro held member
    rcases List.mem_append.mp member with earlier | last
    · exact counted.known held earlier
    · rw [List.mem_singleton.mp last]
      exact ⟨_, delivers.known⟩
  counts := by
    -- The counter grows by what the step adds to the total of its key.
    rw [delivers.steps, delivers.counted]
    intro key
    exact count_add_totalBy counted.counts step key

/-- A trace without steps counts nothing. -/
theorem Trace.fresh_counted : Trace.fresh.Counted where
  known := by
    intro step member
    cases member
  counts key := by rw [Trace.fresh, Tally.count_empty, totalBy_nil]

/-- A step of a call either stays with its target, or is moved to the pipe of a join. -/
def Step.Placed (step : Step) (moved : Prop) : Prop :=
  (¬ moved → step.credited = step.target) ∧
    (moved → step.target ≠ step.credited ∧ 0 < step.amount ∧ ∃ id, step.credited = .pipe (some id))

/-- A run appends one step for each of its calls, and counts all of them. -/
theorem runCalls_counted {calls : List Call} (counted : t.Counted)
    (ran : runCalls calls t = .ok next) : next.Counted ∧ ∃ steps,
      next.steps = t.steps ++ steps ∧
        List.Forall₂ (fun (call : Call) (step : Step) => step.Placed call.Moved) calls steps := by
  -- The induction is on the calls: each keeps the invariant and appends the step it is placed by.
  induction calls generalizing t with
  | nil =>
    rw [runCalls, Except.ok.injEq] at ran
    subst ran
    exact ⟨counted, [], by simp, .nil⟩
  | cons call calls ih =>
    simp only [runCalls, bind_eq_ok] at ran
    obtain ⟨middle, applied, ran⟩ := ran
    obtain ⟨step, delivers, stays, moves⟩ := Call.delivers applied
    obtain ⟨whole, steps, appended, placed⟩ := ih (counted.step delivers) ran
    refine ⟨whole, step :: steps, ?_, .cons ⟨stays, moves⟩ placed⟩
    rw [appended, delivers.steps, List.append_assoc, List.singleton_append]

/-- The amounts of steps are known when each of them is. -/
theorem mapM_delivered {steps : List Step}
    (known : ∀ step ∈ steps, ∃ amount, step.delivered = .ok amount) :
    steps.mapM Step.delivered = .ok (steps.map Step.amount) := by
  -- The induction is on the steps, whose amounts are taken one after the other.
  induction steps with
  | nil => rfl
  | cons step steps ih =>
    obtain ⟨amount, head⟩ := known step List.mem_cons_self
    rw [List.mapM_cons, ih fun held member => known held (List.mem_cons_of_mem _ member),
      List.map_cons, Step.amount_eq head, head]
    rfl

/-- A step is moved exactly by a call that moves it, and then to a pipe, with all its bytes. -/
theorem placed_steps {calls : List Call} {steps : List Step}
    (placed : List.Forall₂ (fun (call : Call) (step : Step) => step.Placed call.Moved) calls steps) :
    (∀ step ∈ steps, step.target ≠ step.credited →
      0 < step.amount ∧ ∃ id, step.credited = .pipe (some id)) ∧
    ((∀ step ∈ steps, step.target = step.credited) ↔ ∀ call ∈ calls, ¬ call.Moved) := by
  -- The induction is on the calls and their steps, side by side.
  induction placed with
  | nil => simp
  | @cons call step calls steps first others ih =>
    obtain ⟨stays, moves⟩ := first
    -- A step stays exactly when its call does not move it.
    have here : step.target = step.credited ↔ ¬ call.Moved := by
      constructor
      · intro same moved
        exact (moves moved).1 same
      · intro stayed
        exact (stays stayed).symm
    simp only [List.forall_mem_cons, here, ih.2, iff_self, and_true]
    refine ⟨?_, ih.1⟩
    intro moved
    have joined : call.Moved := by
      by_contra stayed
      exact moved (here.mpr stayed)
    exact (moves joined).2

/-- The bytes that the steps for a target deliver are their total. -/
theorem Trace.Counted.delivered (counted : t.Counted) (key : Target) :
    t.delivered key = .ok (totalBy Step.target Step.amount t.steps key) := by
  -- The steps for one target are some of the steps, all of which are known.
  have known : ∀ step ∈ t.steps.filter (fun step => step.target = key),
      ∃ amount, step.delivered = .ok amount := by
    intro step member
    exact counted.known step (List.mem_filter.mp member).1
  rw [Trace.delivered, mapM_delivered known, ok_bind, pure_ok, totalBy]

/-- The counters are the bytes delivered exactly when every step is counted under its target. -/
theorem Trace.Counted.agrees_iff (counted : t.Counted)
    (moves : ∀ step ∈ t.steps, step.target ≠ step.credited →
      0 < step.amount ∧ ∃ id, step.credited = .pipe (some id)) :
    (∀ key, t.delivered key = .ok (t.peerSent.count key)) ↔
      ∀ step ∈ t.steps, step.target = step.credited := by
  -- Both sides are totals of the same steps, by two keys.
  simp only [counted.delivered, counted.counts, Except.ok.injEq]
  constructor
  · intro agree step member
    by_contra moved
    obtain ⟨positive, id, named⟩ := moves step member moved
    -- No step for a pipe by its number is counted elsewhere, so that pipe has too many bytes.
    have more := totalBy_lt member moved positive fun held _ aimed => by
      rw [← aimed]
      exact Step.credited_pipe (aimed.trans named)
    have same := agree step.credited
    omega
  · intro stays key
    exact totalBy_congr stays

end Runs

/-- The property that the counters of a trace are the bytes its steps deliver. -/
def Trace.CountsDelivered (t : Trace) : Prop :=
  ∀ key, t.delivered key = .ok (t.peerSent.count key)

/--
The counters agree with the steps exactly in runs without one kind of call.

Such a call sends records with a placeholder, the first of them a join, to a carrier.
-/
theorem peerSent_counts_iff (calls : List Call) (t : Trace)
    (ran : runCalls calls Trace.fresh = .ok t) :
    t.CountsDelivered ↔ ∀ call ∈ calls, ¬ call.Moved := by
  obtain ⟨counted, steps, appended, placed⟩ := runCalls_counted Trace.fresh_counted ran
  obtain ⟨moves, stays⟩ := placed_steps placed
  -- A fresh trace has no steps, so the steps are those of the calls.
  rw [← stays, ← show t.steps = steps from appended]
  refine counted.agrees_iff ?_
  rw [appended]
  exact moves

/-- A join, as it opens a pipe on a carrier. -/
def openingJoin : Value :=
  (Frame.pipeJoin ⟨[76, 79, 67, 65, 76], 2, .named .bidi, none, none, none, 0, none,
    List.replicate 16 0⟩).dict

/-- An acknowledgement of everything sent on the first pipe, to be filled in later. -/
def ackOfSent : Value :=
  .dict [("type", .str "PIPE_ACK"), ("entries", .list [
    .dict [("pipe", .nat 0), ("lane", .nat 0), ("position", sent 0), ("delay", .nat 0)]])]

/-- Placeholders on a pipe, a join on a carrier, bytes and a message are all counted as delivered. -/
theorem peerSent_counts_iff_apart :
    ∃ t, runCalls [.send (some 0) [[ackOfSent]] [] false none,
        .send none [[openingJoin]] [] false (some "c2"), .raw (some 0) [1, 2] [] none,
        .sendMessages none [] (some [[0]]) (some "c2")] Trace.fresh = .ok t ∧
      t.CountsDelivered := by
  -- No call of the run is moved: the placeholder is on a pipe, and the join is alone.
  have ran : ∃ t, runCalls [.send (some 0) [[ackOfSent]] [] false none,
      .send none [[openingJoin]] [] false (some "c2"), .raw (some 0) [1, 2] [] none,
      .sendMessages none [] (some [[0]]) (some "c2")] Trace.fresh = .ok t := ⟨_, rfl⟩
  obtain ⟨t, ran⟩ := ran
  exact ⟨t, ran, (peerSent_counts_iff _ t ran).mpr (by decide)⟩

/-- The join and the placeholder in one record: its bytes go to the carrier, but count for the pipe. -/
theorem peerSent_joinBeforePlaceholder :
    ∃ t, runCalls [.send none [[openingJoin, ackOfSent]] [] false (some "c2")] Trace.fresh = .ok t ∧
      t.delivered (.carrier "c2") = .ok 43 ∧ t.peerSent.count (.carrier "c2") = 0 ∧
      t.delivered (.pipe (some 2)) = .ok 0 ∧ t.peerSent.count (.pipe (some 2)) = 43 ∧
      ¬ t.CountsDelivered := by
  refine ⟨_, rfl, rfl, rfl, rfl, rfl, ?_⟩
  intro counts
  have carrier := counts (.carrier "c2")
  cases carrier

end Zmux
