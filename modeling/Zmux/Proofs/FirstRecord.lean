import Zmux.Proofs.RecordStreams

/-! The check of the first bytes of a carrier agrees with decoding its first record. -/

namespace Zmux

open Wire

/-- The kinds that may be left, each by the bytes it begins with, seen from the bytes so far. -/
def judge (kinds : List (FirstBytes × Bytes)) (rest : Bytes) : FirstBytes :=
  let alive := kinds.filter fun kind => kind.2.take rest.length = rest.take kind.2.length
  if alive = [] then .reject
  else match alive.find? fun kind => rest.length ≥ kind.2.length with
    | some kind => kind.1
    | none => .needMore

/-- One of two byte strings begins with the other exactly when they agree as far as both go. -/
theorem agree_iff {first second : Bytes} : first.take second.length = second.take first.length ↔
    first <+: second ∨ second <+: first := by
  -- Which of the two is the shorter one decides which is a front of the other.
  constructor
  · intro same
    by_cases longer : second.length ≤ first.length
    · right
      -- The shorter one is all of the common part.
      rw [List.take_of_length_le longer] at same
      rw [← same]
      exact List.take_prefix _ _
    · left
      rw [List.take_of_length_le (by omega)] at same
      rw [same]
      exact List.take_prefix _ _
  · intro fronts
    cases fronts with
    | inl front =>
      obtain ⟨tail, rfl⟩ := front
      rw [List.take_of_length_le (by simp), List.take_left]
    | inr front =>
      obtain ⟨tail, rfl⟩ := front
      rw [List.take_left, List.take_of_length_le (by simp)]

section Judge

variable {kinds : List (FirstBytes × Bytes)} {rest : Bytes}

/-- No kind begins with the bytes of another. -/
def Apart (kinds : List (FirstBytes × Bytes)) : Prop :=
  -- Equal openings make the kinds equal, so a kind is known by its bytes.
  ∀ first ∈ kinds, ∀ second ∈ kinds, first.2 <+: second.2 → first = second

/-- While the bytes fit a kind, it is named or more bytes are asked for, and its own bytes suffice. -/
theorem judge_fitting (apart : Apart kinds) {kind : FirstBytes × Bytes} (listed : kind ∈ kinds)
    (fits : kind.2 <+: rest ∨ rest <+: kind.2) :
    (judge kinds rest = .needMore ∨ judge kinds rest = kind.1) ∧
    (kind.2 <+: rest → judge kinds rest = kind.1) := by
  -- The kind stays alive, so the check names some kind or waits for it.
  have alive : kind ∈ kinds.filter fun kind =>
      kind.2.take rest.length = rest.take kind.2.length := by
    rw [List.mem_filter, decide_eq_true_eq]
    exact ⟨listed, agree_iff.mpr fits⟩
  have some : kinds.filter (fun kind =>
      kind.2.take rest.length = rest.take kind.2.length) ≠ [] := List.ne_nil_of_mem alive
  simp only [judge, if_neg some]
  cases found : (kinds.filter fun kind =>
      kind.2.take rest.length = rest.take kind.2.length).find?
        fun kind => rest.length ≥ kind.2.length with
  | none =>
    refine ⟨.inl rfl, ?_⟩
    intro whole
    -- The kind itself would have been found.
    have missed := List.find?_eq_none.mp found kind alive
    simp only [ge_iff_le, decide_eq_true_eq] at missed
    exact absurd whole.length_le missed
  | some other =>
    have member := List.mem_filter.mp (List.mem_of_find?_eq_some found)
    have long := List.find?_some found
    simp only [ge_iff_le, decide_eq_true_eq] at member long
    obtain ⟨known, same⟩ := member
    -- All bytes of the kind found are there, so they cannot lead to another kind.
    have whole : other.2 <+: rest := by
      rw [List.take_of_length_le long] at same
      rw [same]
      exact List.take_prefix _ _
    have only : other = kind := by
      cases fits with
      | inr front => exact apart other known kind listed (whole.trans front)
      | inl front =>
        rcases List.prefix_or_prefix_of_prefix whole front with inner | inner
        · exact apart other known kind listed inner
        · exact (apart kind listed other known inner).symm
    rw [only]
    exact ⟨.inr rfl, fun _ => rfl⟩

/-- No kind fits the bytes, or one is there with all its bytes, or one still waits for more. -/
theorem judge_cases (kinds : List (FirstBytes × Bytes)) (rest : Bytes) :
    (judge kinds rest = .reject ∧ ∀ kind ∈ kinds, ¬ (kind.2 <+: rest ∨ rest <+: kind.2)) ∨
    (∃ kind ∈ kinds, kind.2 <+: rest ∧ judge kinds rest = kind.1) ∨
    (judge kinds rest = .needMore ∧ ∃ kind ∈ kinds, rest <+: kind.2) := by
  -- The cases are those of the check: nothing alive, a kind found, and none found yet.
  simp only [judge]
  split
  · rename_i dead
    refine .inl ⟨rfl, fun kind listed fits => ?_⟩
    have gone := List.filter_eq_nil_iff.mp dead kind listed
    rw [decide_eq_true_eq] at gone
    exact gone (agree_iff.mpr fits)
  · rename_i some
    right
    split
    · rename_i kind found
      have member := List.mem_filter.mp (List.mem_of_find?_eq_some found)
      have long := List.find?_some found
      simp only [ge_iff_le, decide_eq_true_eq] at member long
      rcases member with ⟨listed, same⟩
      refine .inl ⟨kind, listed, ?_, rfl⟩
      rw [List.take_of_length_le long] at same
      rw [same]
      exact List.take_prefix _ _
    · rename_i missed
      obtain ⟨kind, alive⟩ := List.exists_mem_of_ne_nil _ some
      have short := List.find?_eq_none.mp missed kind alive
      rcases List.mem_filter.mp alive with ⟨listed, same⟩
      simp only [ge_iff_le, decide_eq_true_eq, Nat.not_le] at short same
      refine .inr ⟨rfl, kind, listed, ?_⟩
      rw [List.take_of_length_le (show rest.length ≤ kind.2.length by omega)] at same
      rw [← same]
      exact List.take_prefix _ _

/-- More bytes are asked for only while the bytes are a front of what some kind begins with. -/
theorem judge_needMore (definite : ∀ kind ∈ kinds, kind.1 ≠ .needMore)
    (waits : judge kinds rest = .needMore) : ∃ kind ∈ kinds, rest <+: kind.2 := by
  -- A refusal and a named kind are other answers.
  rcases judge_cases kinds rest with ⟨refused, -⟩ | ⟨kind, listed, -, named⟩ | ⟨-, waited⟩
  · rw [waits] at refused
    cases refused
  · rw [waits] at named
    exact absurd named.symm (definite kind listed)
  · exact waited

end Judge

/-- The bytes that the first frame of a kind begins with, and the least bytes of that frame. -/
def FirstBytes.opening : FirstBytes → Bytes × Nat
  -- The least bytes are those that the check computes for each kind.
  | session => (qxTpPrefix, minTpRecord)
  | join => (pipeJoinPrefix, minJoinRecord)
  | lane => (pipeLanePrefix, minLaneRecord)
  | _ => ([], 0)

/-- Whether a first record of a kind is accepted. -/
def FirstBytes.accepted (acceptJoin acceptLane : Bool) : FirstBytes → Bool
  | session => true
  | join => acceptJoin
  | lane => acceptLane
  | _ => false

/-- The kind of first record that a frame opens. -/
def Frame.kind : Frame → FirstBytes
  | .qxTransportParameters _ => .session
  | .pipeJoin _ => .join
  | .pipeLane .. => .lane
  -- No other frame may open a carrier.
  | _ => .reject

variable {acceptJoin acceptLane : Bool} {most : Nat}

/-- The candidates are the accepted kinds that the size leaves room for. -/
theorem mem_candidates {size : Nat} {kind : FirstBytes × Bytes} :
    kind ∈ candidates size acceptJoin acceptLane most ↔
      kind.1.accepted acceptJoin acceptLane = true ∧ kind.2 = kind.1.opening.1 ∧
      kind.1.opening.2 ≤ size ∧ size ≤ most := by
  -- Each of the three lists has one kind, under the condition of its size.
  obtain ⟨label, opening⟩ := kind
  simp only [candidates, List.mem_append]
  cases label <;>
    simp [FirstBytes.accepted, FirstBytes.opening, List.mem_ite_nil_right, and_comm, and_left_comm]

/-- No kind of first record begins with the bytes of another. -/
theorem candidates_apart (size : Nat) : Apart (candidates size acceptJoin acceptLane most) := by
  -- The three openings are compared with each other, and no other kind is a candidate.
  have table : ∀ first ∈ [FirstBytes.session, .join, .lane],
      ∀ second ∈ [FirstBytes.session, .join, .lane],
        first.opening.1 <+: second.opening.1 → first = second := by decide
  have known : ∀ label : FirstBytes, label.accepted acceptJoin acceptLane = true →
      label ∈ [FirstBytes.session, .join, .lane] := by
    intro label accepted
    cases label <;> simp [FirstBytes.accepted] at accepted ⊢
  intro first left second right front
  obtain ⟨ok, opening, -⟩ := mem_candidates.mp left
  obtain ⟨fine, beginning, -⟩ := mem_candidates.mp right
  rw [opening, beginning] at front
  have same := table _ (known _ ok) _ (known _ fine) front
  exact Prod.ext same (by rw [opening, beginning, same])

/-- Bytes that do not complete a size ask for more. -/
theorem classifyFirstBytes_unsized {start : Bytes} {fault : Failure}
    (unsized : decodeVarint start 0 FE = .error fault) :
    classifyFirstBytes start acceptJoin acceptLane most = .ok .needMore := by
  -- Either there is no byte at all, or there are fewer than the first one announces.
  have short := (decodeVarint_eq_error.mp unsized).2
  cases start with
  | nil => rfl
  | cons first others =>
    have few := short first others rfl
    have found : item (first :: others) 0 = .ok first := rfl
    have announced : 1 <<< (first.toNat >>> 6) = announcedWidth first := rfl
    have less : (first :: others).length < announcedWidth first := by
      rw [List.length_cons]
      omega
    simp only [classifyFirstBytes, List.cons_ne_nil, if_false, found, ok_bind, announced, if_pos less,
      pure_ok]

/-- Behind a complete size, the kinds it leaves possible are judged by the bytes that follow. -/
theorem classifyFirstBytes_sized {size width : Nat} {rest : Bytes} (legal : VarintLegal size width) :
    classifyFirstBytes (varintForm size width ++ rest) acceptJoin acceptLane most =
      .ok (judge (candidates size acceptJoin acceptLane most) rest) := by
  -- The size is there, so the check is the judgement of what follows it.
  obtain ⟨first, digits, form, announced⟩ := varintForm_head legal
  have wide := varintForm_length legal
  have some : varintForm size width ++ rest ≠ [] := by
    rw [form]
    exact List.cons_ne_nil _ _
  have found : item (varintForm size width ++ rest) 0 = .ok first := by rw [form]; rfl
  have whole : ¬ (varintForm size width ++ rest).length < width := by
    rw [List.length_append, wide]
    omega
  simp only [classifyFirstBytes, if_neg some, found, ok_bind, announced, if_neg whole,
    decodeVarint_at legal, List.drop_left' wide, judge]
  generalize (candidates size acceptJoin acceptLane most).filter (fun kind =>
    kind.2.take rest.length = rest.take kind.2.length) = alive
  by_cases dead : alive = []
  · rw [if_pos dead, if_pos dead]
    rfl
  · rw [if_neg dead, if_neg dead]
    cases alive.find? fun kind => rest.length ≥ kind.2.length <;> rfl

/-- A frame whose type is the first of its name begins with the bytes of that type. -/
theorem typePrefix_eq {f : Frame} {name : FrameName} (decoded : f.Decoded)
    (named : f.name = some name) (first : typeCode f = firstType name) :
    varintForm f.code (varintShortest f.code) = typePrefix name := by
  -- The opening is the shortest form of the same type.
  obtain ⟨typed, -, -, legal, -⟩ := decoded.typed named
  rw [first] at typed
  rw [typePrefix, typed, ok_bind, encodeVarint_shortest (legal_shortest_iff.mp legal)]

/-- A frame of an accepted kind begins with the opening of its kind, and takes its least bytes. -/
theorem FrameAt.opening {f : Frame} {window left : Bytes} {enabled : Gates} {limit : Option Nat}
    (placed : FrameAt enabled limit f window left)
    (accepted : f.kind.accepted acceptJoin acceptLane = true) :
    f.kind.opening.1 <+: window ∧ f.kind.opening.2 ≤ window.length := by
  -- Behind its type each of the three frames has parts of a known least width.
  have decoded := placed.decoded
  cases f with
  | qxTransportParameters block =>
    obtain ⟨rest, rfl, starts⟩ := (typed_layout_iff rfl).mp placed.spelled
    have opening : _ = qxTpPrefix := typePrefix_eq decoded rfl rfl
    cases block with
    | raw => exact decoded.elim
    | params params =>
      -- The block is preceded by at least one byte for its length.
      simp only [Frame.fields, starts_sized_begins] at starts
      obtain ⟨inner, behind, begins, -⟩ := starts
      have bound := begins_length begins
      rw [opening]
      refine ⟨List.prefix_append _ _, ?_⟩
      rw [List.length_append]
      simp only [FirstBytes.opening, Frame.kind, minTpRecord]
      omega
  | pipeJoin join =>
    obtain ⟨rest, rfl, starts⟩ := (typed_layout_iff rfl).mp placed.spelled
    have opening : _ = pipeJoinPrefix := typePrefix_eq decoded rfl rfl
    have bound := join_length decoded starts
    rw [opening]
    refine ⟨List.prefix_append _ _, ?_⟩
    rw [List.length_append]
    simp only [FirstBytes.opening, Frame.kind, minJoinRecord]
    omega
  | pipeLane key pipe lane =>
    obtain ⟨rest, rfl, starts⟩ := (typed_layout_iff rfl).mp placed.spelled
    have opening : _ = pipeLanePrefix := typePrefix_eq decoded rfl rfl
    have long : key.length = Limits.laneKeyBytes := decoded
    simp only [Frame.fields, nums, starts_bytes_iff, starts_num_begins] at starts
    obtain ⟨_, rfl, _, first, _, second, -⟩ := starts
    have front := begins_length first
    have back := begins_length second
    rw [opening]
    refine ⟨List.prefix_append _ _, ?_⟩
    rw [List.length_append, List.length_append, long]
    simp only [FirstBytes.opening, Frame.kind, minLaneRecord]
    omega
  | _ => cases accepted

/-- The shortest frame of each kind. -/
def FirstBytes.least : FirstBytes → Frame
  | session => .qxTransportParameters (.params [])
  | join => .pipeJoin {
      locator := [0], pipe := 0, direction := .named .up, carrierBound := some false
      standby := some false, reservedFlags := none, fateGroup := 0, priority := some 0
      token := List.replicate 16 0 }
  | lane => .pipeLane (List.replicate 16 0) 0 0
  | _ => .pipePing

/-- The shortest frame of a kind can be sent, and is what a record of that kind begins with. -/
theorem FirstBytes.least_encoded {label : FirstBytes}
    (accepted : label.accepted acceptJoin acceptLane = true) :
    label.least.WellFormed ∧ ¬ label.least.RunsToEnd ∧ label.least.explicit = label.least ∧
    label.least.kind = label ∧ (∃ name, label.least.name = some name) ∧
    ∃ bytes, encodeFrame label.least = .ok bytes ∧ label.opening.1 <+: bytes ∧
      bytes.length = label.opening.2 := by
  -- The encoding of each frame is computed, and begins with the bytes of its type.
  cases label with
  | session =>
    refine ⟨⟨by simp, by simp, ⟨_, rfl⟩, ?_⟩, id, rfl, rfl, ⟨_, rfl⟩, qxTpPrefix ++ [0], rfl, ?_, rfl⟩
    · intro body encoded
      cases encoded
      decide
    · exact List.prefix_append _ _
  | join =>
    refine ⟨⟨by decide, ⟨_, rfl⟩, rfl, by decide, by decide, by decide, rfl⟩, id, rfl, rfl, ⟨_, rfl⟩,
      pipeJoinPrefix ++ [1, 0, 0, 0, 0, 0] ++ List.replicate 16 0, rfl, ?_, rfl⟩
    rw [List.append_assoc]
    exact List.prefix_append _ _
  | lane =>
    refine ⟨⟨rfl, by decide, by decide⟩, id, rfl, rfl, ⟨_, rfl⟩,
      pipeLanePrefix ++ List.replicate 18 0, rfl, List.prefix_append _ _, rfl⟩
  | _ => cases accepted

/-- The least frame of a kind is filled up with padding to any size that has room for it. -/
theorem FirstBytes.filled {label : FirstBytes} {size : Nat}
    (accepted : label.accepted acceptJoin acceptLane = true) (room : label.opening.2 ≤ size) :
    ∃ body fs, body.length = size ∧ label.opening.1 <+: body ∧
      decodeFrames body = .ok (label.least :: fs) := by
  -- A run of zeros behind the frame is one more frame, so the record decodes.
  obtain ⟨formed, bounded, explicit, -, ⟨name, named⟩, bytes, encoded, begins, long⟩ :=
    FirstBytes.least_encoded accepted
  have shapes : ∀ f ∈ [label.least, .padding (some (size - bytes.length))], f.WellFormed := by
    intro f member
    rcases List.mem_cons.mp member with rfl | member
    · exact formed
    · rw [List.mem_singleton.mp member]
      trivial
  have last : ∀ f ∈ [label.least, .padding (some (size - bytes.length))].dropLast,
      ¬ f.RunsToEnd := by
    intro f member
    rw [List.mem_singleton.mp member]
    exact bounded
  have padded : encodeFrames [label.least, .padding (some (size - bytes.length))] =
      .ok (bytes ++ List.replicate (size - bytes.length) 0) := by
    simp [encodeFrames, encoded, encodeFrame]
  -- The frames encoded are placed in canonical form, which keeps the first of them.
  obtain ⟨body, same, placed⟩ := encodeFrames_canonical shapes last
  rw [padded, Except.ok.injEq] at same
  subst same
  rw [canonical, List.map_cons, explicit, mergePadding_named named] at placed
  refine ⟨_, _, ?_, begins.trans (List.prefix_append _ _), decodeFrames_eq_ok.mpr placed⟩
  rw [List.length_append, List.length_replicate]
  omega

/-- Some bytes with more behind them decode to a record whose first frame is accepted. -/
def Opens (acceptJoin acceptLane : Bool) (most : Nat) (start : Bytes) : Prop :=
  ∃ more f fs next, decodeRecord (start ++ more) 0 most = .ok (some (f :: fs), next) ∧
    f.kind.accepted acceptJoin acceptLane = true

/-- A record of an accepted kind is never refused while it arrives, and is named when it is there. -/
theorem classifyFirstBytes_record {bytes : Bytes} {f : Frame} {fs : List Frame} {next : Nat}
    (decoded : decodeRecord bytes 0 most = .ok (some (f :: fs), next))
    (accepted : f.kind.accepted acceptJoin acceptLane = true) :
    (∀ front, front <+: bytes →
      classifyFirstBytes front acceptJoin acceptLane most = .ok .needMore ∨
      classifyFirstBytes front acceptJoin acceptLane most = .ok f.kind) ∧
    classifyFirstBytes bytes acceptJoin acceptLane most = .ok f.kind := by
  obtain ⟨width, body, rest, legal, rfl, -, small, -, frames⟩ := decodeRecord_some_iff.mp decoded
  -- The body begins with the opening of its kind and has room for the least frame.
  cases decodeFrames_eq_ok.mp frames with
  | cons first others =>
    obtain ⟨opening, long⟩ := first.opening accepted
    have whole : f.kind.opening.1 <+: body ++ rest := opening.trans (List.prefix_append _ _)
    have listed : (f.kind, f.kind.opening.1) ∈
        candidates body.length acceptJoin acceptLane most :=
      mem_candidates.mpr ⟨accepted, rfl, long, small⟩
    have apart := @candidates_apart acceptJoin acceptLane most body.length
    constructor
    · intro front start
      cases sized : decodeVarint front 0 FE with
      | error fault => exact .inl (classifyFirstBytes_unsized sized)
      | ok answer =>
        obtain ⟨size, _, taken⟩ := answer
        obtain ⟨lawful, -, seen, rfl⟩ := decodeVarint_begin.mp sized
        obtain ⟨tail, same⟩ := start
        -- The size that has arrived is the size of the record.
        rw [List.append_assoc] at same
        obtain ⟨rfl, rfl, continues⟩ := varintFormat.decodable lawful legal same
        have fits : f.kind.opening.1 <+: seen ∨ seen <+: f.kind.opening.1 :=
          List.prefix_or_prefix_of_prefix whole (continues ▸ List.prefix_append _ _)
        rw [classifyFirstBytes_sized legal]
        cases (judge_fitting apart listed fits).1 with
        | inl waits => exact .inl (by rw [waits])
        | inr named => exact .inr (by rw [named])
    · rw [classifyFirstBytes_sized legal, (judge_fitting apart listed (.inl whole)).2 whole]

/-- While more bytes are asked for, some bytes complete an accepted record. -/
theorem classifyFirstBytes_opens {start : Bytes} {size next width : Nat}
    (sized : decodeVarint start 0 FE = .ok (size, next, width))
    (waits : classifyFirstBytes start acceptJoin acceptLane most = .ok .needMore) :
    Opens acceptJoin acceptLane most start := by
  -- The judgement waits for a kind whose opening the bytes are a front of.
  obtain ⟨legal, -, rest, rfl⟩ := decodeVarint_begin.mp sized
  rw [classifyFirstBytes_sized legal, Except.ok.injEq] at waits
  have definite : ∀ kind ∈ candidates size acceptJoin acceptLane most, kind.1 ≠ .needMore := by
    intro kind member needs
    obtain ⟨accepted, -⟩ := mem_candidates.mp member
    rw [needs] at accepted
    cases accepted
  obtain ⟨⟨label, opening⟩, member, front⟩ := judge_needMore definite waits
  obtain ⟨accepted, same, room, small⟩ := mem_candidates.mp member
  simp only at accepted same room front
  subst same
  -- A body of the size that is announced begins with that opening.
  obtain ⟨body, fs, rfl, begins, decoded⟩ := FirstBytes.filled accepted room
  obtain ⟨more, filled⟩ := front.trans begins
  have kind : label.least.kind = label := (FirstBytes.least_encoded accepted).2.2.2.1
  -- Every kind has at least the bytes of its type.
  have positive : 1 ≤ body.length := by
    cases label with
    | session | join | lane => exact Nat.le_trans (by decide) room
    | _ => cases accepted
  refine ⟨more, label.least, fs, width + body.length, ?_, by rw [kind]; exact accepted⟩
  refine decodeRecord_some_iff.mpr ⟨width, body, [], legal, ?_, positive, small, rfl, decoded⟩
  rw [List.append_assoc, filled, List.append_nil]

/--
The check of the first bytes and the decoder agree on the records that are accepted.

Every front of an accepted record is named as its kind or asks for more, and the record itself is named.
Once the size is there, bytes are refused only if no accepted record begins with them, and more are asked for only if one does.
-/
theorem classifyFirstBytes_agrees (acceptJoin acceptLane : Bool) (most : Nat) :
    (∀ bytes f fs next, decodeRecord bytes 0 most = .ok (some (f :: fs), next) →
      f.kind.accepted acceptJoin acceptLane = true →
      (∀ front, front <+: bytes →
        classifyFirstBytes front acceptJoin acceptLane most = .ok .needMore ∨
        classifyFirstBytes front acceptJoin acceptLane most = .ok f.kind) ∧
      classifyFirstBytes bytes acceptJoin acceptLane most = .ok f.kind) ∧
    (∀ start size next width, decodeVarint start 0 = .ok (size, next, width) →
      (classifyFirstBytes start acceptJoin acceptLane most = .ok .reject →
        ¬ Opens acceptJoin acceptLane most start) ∧
      (classifyFirstBytes start acceptJoin acceptLane most = .ok .needMore →
        Opens acceptJoin acceptLane most start)) := by
  constructor
  · intro bytes f fs next decoded accepted
    exact classifyFirstBytes_record decoded accepted
  · intro start size next width sized
    refine ⟨?_, classifyFirstBytes_opens sized⟩
    intro refused opens
    obtain ⟨more, f, fs, last, decoded, accepted⟩ := opens
    -- A front of an accepted record is not refused.
    have fronts := (classifyFirstBytes_record decoded accepted).1 start (List.prefix_append _ _)
    rw [refused] at fronts
    cases fronts with
    | inl needs => cases needs
    | inr named =>
      rw [Except.ok.injEq] at named
      rw [← named] at accepted
      cases accepted

end Zmux
