import Zmux.Codec.Crypto
import Zmux.Proofs.FirstRecord

/-! What the token of a join authenticates, and when that is the join as it was sent. -/

namespace Zmux

open Wire

/-- A join is encoded as everything in front of its token, then its token. -/
theorem encodeFrame_join (join : Join) : encodeFrame (.pipeJoin join) =
    (encodeFrame (.pipeJoin { join with token := [] })).map (· ++ join.token) := by
  -- The token is the last thing that is written, and writing it cannot fail.
  simp only [encodeFrame, encodeFields, encodeJoinBody, typeCode, map_bind, pure_ok, map_ok,
    List.append_assoc, List.append_nil, bind_assoc, ok_bind]

/-- The input of the token does not depend on the token. -/
theorem joinBytesWithoutToken_eq {join : Join} (long : join.token.length = 16) :
    joinBytesWithoutToken join = encodeFrame (.pipeJoin { join with token := [] }) := by
  -- Cutting off as many bytes as a token has leaves what is in front of it.
  rw [joinBytesWithoutToken, encodeFrame_join]
  cases encodeFrame (.pipeJoin { join with token := [] }) with
  | error fault => rfl
  | ok front =>
    have rest : (front ++ join.token).length - 16 = front.length := by
      rw [List.length_append, long, Nat.add_sub_cancel]
    simp only [map_ok, ok_bind, pure_ok, rest, List.take_left]

/-- The input of the token of a decoded join is its type and the shortest spelling of its body. -/
theorem joinBytesWithoutToken_eq_ok {join : Join} (decoded : join.Decoded)
    (fits : join.body.Fits varintFormat) :
    joinBytesWithoutToken join = .ok (pipeJoinPrefix ++ join.body.short varintFormat) := by
  -- The encoder writes the shortest spelling, of which the token is the last part.
  have typed : (Frame.pipeJoin join).Decoded := decoded
  have legal := (typed.typed rfl).2.2.2.1
  have whole : (Frame.pipeJoin join).layout.Fits varintFormat :=
    Layout.fits_append.mpr ⟨fits, trivial⟩
  have opening : _ = pipeJoinPrefix := typePrefix_eq typed rfl rfl
  have long := decoded.token
  rw [joinBytesWithoutToken, encodeFrame_eq_ok typed whole, ok_bind, pure_ok]
  simp only [Frame.layout, Frame.fields, Layout.short, Layout.short_append, List.append_nil, opening]
  rw [← List.append_assoc, List.length_append, long, Nat.add_sub_cancel, List.take_left]

/-- A well-formed join with its defaults explicit is decoded, and its body can be spelled. -/
theorem Join.WellFormed.explicit {join : Join} (formed : join.WellFormed) :
    join.explicit.Decoded ∧ join.explicit.body.Fits varintFormat := by
  -- A join is not padding, so the result about well-formed frames applies to it.
  have shape : (Frame.pipeJoin join).WellFormed := formed
  have other : (Frame.pipeJoin join).explicit ≠ .padding (some 0) := by
    intro same
    cases same
  obtain ⟨decoded, fits⟩ := shape.decoded other
  exact ⟨decoded, (Layout.fits_append.mp fits).1⟩

/-- Making defaults explicit does not change the input of the token. -/
theorem Join.WellFormed.input {join : Join} (formed : join.WellFormed) :
    joinBytesWithoutToken join =
      .ok (pipeJoinPrefix ++ join.explicit.body.short varintFormat) := by
  -- The encoder fills in the same defaults.
  have shape : (Frame.pipeJoin join).WellFormed := formed
  obtain ⟨decoded, fits⟩ := formed.explicit
  rw [← joinBytesWithoutToken_eq_ok decoded fits, joinBytesWithoutToken, joinBytesWithoutToken,
    ← encodeFrame_explicit shape]
  rfl

/-- Two joins agree on everything that their tokens should authenticate. -/
structure SameRequest (first second : Join) : Prop where
  locator : first.locator = second.locator
  pipe : first.pipe = second.pipe
  direction : first.direction = second.direction
  carrierBound : first.carrierBound.getD false = second.carrierBound.getD false
  standby : first.standby.getD false = second.standby.getD false
  fateGroup : first.fateGroup = second.fateGroup
  priority : first.priority.getD pipePriorityDefault = second.priority.getD pipePriorityDefault

/-- What follows the type of a join, more bytes of any kind behind it, is read in one way only. -/
theorem readJoin_front {join : Join} (decoded : join.Decoded) (fits : join.body.Fits varintFormat)
    (token behind : Bytes) (long : token.length = 16) :
    readJoin.on (join.body.short varintFormat ++ (token ++ behind)) =
      .ok (.pipeJoin { join with token := token }, behind) := by
  -- The body is a spelling of itself, and the token is read as bytes.
  obtain ⟨locator, direction, carrierBound, standby, reservedFlags, priority, -⟩ := decoded
  refine readJoin_on.mpr ⟨{ join with token := token }, rfl,
    ⟨locator, direction, carrierBound, standby, reservedFlags, priority, long⟩, ?_⟩
  have body : ({ join with token := token } : Join).body = join.body := rfl
  rw [body, starts_append_iff]
  exact ⟨token ++ behind, Layout.starts_short fits _, by simp⟩

/-- The input of a token tells the request and the carrier binding behind it apart from any other. -/
theorem joinBytesWithoutToken_injective {first second : Join} (formed : first.WellFormed)
    (shaped : second.WellFormed) {front back binding other : Bytes}
    (begun : joinBytesWithoutToken first = .ok front)
    (ended : joinBytesWithoutToken second = .ok back)
    (same : front ++ binding = back ++ other) : binding = other ∧ SameRequest first second := by
  -- Equal inputs are read by one reader, which gives back both requests and what follows them.
  obtain ⟨decoded, fits⟩ := formed.explicit
  obtain ⟨read, spells⟩ := shaped.explicit
  rw [formed.input, Except.ok.injEq] at begun
  rw [shaped.input, Except.ok.injEq] at ended
  subst begun ended
  rw [List.append_assoc, List.append_assoc] at same
  have inputs := List.append_cancel_left same
  -- Sixteen bytes more make up a token, so that both sides can be read as joins.
  have cut : ∀ bytes : Bytes, ∃ token behind, token.length = 16 ∧
      bytes ++ List.replicate 16 0 = token ++ behind := by
    intro bytes
    refine ⟨_, _, ?_, (List.take_append_drop 16 _).symm⟩
    rw [List.length_take, List.length_append, List.length_replicate]
    omega
  obtain ⟨token, behind, long, padded⟩ := cut binding
  obtain ⟨mark, after, wide, filled⟩ := cut other
  have one := readJoin_front decoded fits token behind long
  have two := readJoin_front read spells mark after wide
  rw [← padded, ← List.append_assoc, inputs, List.append_assoc, filled, two] at one
  simp only [Except.ok.injEq, Prod.mk.injEq, Frame.pipeJoin.injEq, Join.explicit, Join.mk.injEq,
    Option.some.injEq] at one
  -- What the reader gives back is one join and one rest, field by field.
  obtain ⟨⟨locator, pipe, direction, carrierBound, standby, -, fateGroup, priority, rfl⟩, rfl⟩ := one
  refine ⟨?_, locator.symm, pipe.symm, direction.symm, carrierBound.symm, standby.symm,
    fateGroup.symm, priority.symm⟩
  rw [← filled] at padded
  exact List.append_cancel_right padded

/-- The token of a join is taken from the hash of its input and its binding. -/
theorem joinToken_eq {hmac : Bytes → Bytes → Bytes} {secret binding front : Bytes} {role : Role}
    {join : Join} (long : join.token.length = 16)
    (input : joinBytesWithoutToken join = .ok front) :
    joinToken hmac secret role join binding =
      (joinKey hmac secret role).map fun key => (hmac key (front ++ binding)).take 16 := by
  -- The blank token put in for the computation does not change the input.
  have blank : joinBytesWithoutToken { join with token := List.replicate 16 0 } = .ok front := by
    rw [joinBytesWithoutToken_eq List.length_replicate, ← joinBytesWithoutToken_eq long, input]
  simp only [joinToken, blank, ok_bind]
  cases joinKey hmac secret role <;> rfl

/--
A token authenticates one request and one carrier binding, unless its hash collides.

Every well-formed join has an input: its type and its body in the shortest spelling.
The input tells requests and bindings apart, and does not depend on the token that a join carries.
A collision is one of the two inputs in question, under the key of the session.
-/
theorem joinToken_binds :
    (∀ join : Join, join.WellFormed → joinBytesWithoutToken join =
      .ok (pipeJoinPrefix ++ join.explicit.body.short varintFormat)) ∧
    (∀ first second : Join, first.WellFormed → second.WellFormed →
      ∀ front back binding other, joinBytesWithoutToken first = .ok front →
        joinBytesWithoutToken second = .ok back → front ++ binding = back ++ other →
        binding = other ∧ SameRequest first second) ∧
    (∀ (join : Join) (token : Bytes), join.token.length = 16 → token.length = 16 →
      joinBytesWithoutToken { join with token := token } = joinBytesWithoutToken join) ∧
    (∀ hmac secret role (first second : Join), first.WellFormed → second.WellFormed →
      ∀ binding other token, joinToken hmac secret role first binding = .ok token →
        verifyJoin hmac secret role { second with token := token } other = .ok true →
        (binding = other ∧ SameRequest first second) ∨
        ∃ key front back, joinKey hmac secret role = .ok key ∧
          joinBytesWithoutToken first = .ok front ∧ joinBytesWithoutToken second = .ok back ∧
          front ++ binding ≠ back ++ other ∧
          (hmac key (front ++ binding)).take 16 = (hmac key (back ++ other)).take 16) := by
  refine ⟨fun join formed => formed.input, ?_, ?_, ?_⟩
  · intro first second formed shaped front back binding other begun ended same
    exact joinBytesWithoutToken_injective formed shaped begun ended same
  · intro join token long wide
    have blank : ({ join with token := token } : Join).token.length = 16 := wide
    rw [joinBytesWithoutToken_eq blank, joinBytesWithoutToken_eq long]
  · intro hmac secret role first second formed shaped binding other token made accepted
    rw [joinToken_eq formed.token formed.input] at made
    -- The token of the request is put in only after the token to compare it with is made.
    have checked : joinToken hmac secret role { second with token := token } other =
        joinToken hmac secret role second other := rfl
    rw [verifyJoin, checked, joinToken_eq shaped.token shaped.input] at accepted
    obtain ⟨key, derived, rfl⟩ := map_eq_ok.mp made
    rw [derived, map_ok, ok_bind, pure_ok, Except.ok.injEq, decide_eq_true_eq] at accepted
    -- Equal inputs are one request, and different ones are the collision.
    by_cases same : pipeJoinPrefix ++ first.explicit.body.short varintFormat ++ binding =
        pipeJoinPrefix ++ second.explicit.body.short varintFormat ++ other
    · exact .inl (joinBytesWithoutToken_injective formed shaped formed.input shaped.input same)
    · exact .inr ⟨key, _, _, derived, formed.input, shaped.input, same, accepted.symm⟩

/-- A join whose pipe is 2, with nothing else asked for. -/
def plainJoin : Join where
  locator := [7]
  pipe := 2
  direction := .named .up
  carrierBound := some false
  standby := some false
  reservedFlags := none
  fateGroup := 0
  priority := some 0
  token := List.replicate 16 0

/-- Under a hash that is always zero, the token of pipe 2 is accepted for pipe 3, by a collision. -/
theorem joinToken_binds_plain : ∃ key front back,
    joinKey (fun _ _ => List.replicate 32 0) [] .initiator = .ok key ∧
      joinBytesWithoutToken plainJoin = .ok front ∧
      joinBytesWithoutToken { plainJoin with pipe := 3 } = .ok back ∧ front ++ [] ≠ back ++ [] := by
  have formed : plainJoin.WellFormed := ⟨by decide, ⟨_, rfl⟩, rfl, by decide, by decide, by decide, rfl⟩
  have other : ({ plainJoin with pipe := 3 } : Join).WellFormed :=
    ⟨by decide, ⟨_, rfl⟩, rfl, by decide, by decide, by decide, rfl⟩
  have binds := joinToken_binds.2.2.2 (fun _ _ => List.replicate 32 0) [] .initiator plainJoin
    { plainJoin with pipe := 3 } formed other [] [] (List.replicate 16 0) (by decide +kernel)
    (by decide +kernel)
  -- The two joins ask for different pipes, so only the collision is left.
  rcases binds with ⟨-, same⟩ | ⟨key, front, back, derived, begun, ended, differ, -⟩
  · exact absurd same.pipe (by decide)
  · exact ⟨key, front, back, derived, begun, ended, differ⟩

/-- An integer at a position is in its shortest form, and ends at another position. -/
def MinimalAt (buf : Bytes) (pos next : Nat) : Prop :=
  ∃ value width, decodeVarint buf pos = .ok (value, next, width) ∧ varintLen value = .ok width

/-- The pipe, the fate group and the priority of a join on the wire are in their shortest forms. -/
def JoinMinimal (buf : Bytes) : Prop :=
  ∃ ln pipeEnd fateEnd priorityEnd, item buf pipeJoinPrefix.length = .ok ln ∧
    MinimalAt buf (pipeJoinPrefix.length + 1 + ln.toNat) pipeEnd ∧
    MinimalAt buf (pipeEnd + 1) fateEnd ∧ MinimalAt buf fateEnd priorityEnd

/-- Where a form lies, the integer ends behind it, and is minimal if the form is the shortest. -/
theorem minimalAt_iff {buf rest : Bytes} {pos next value width : Nat}
    (legal : VarintLegal value width) (here : buf.drop pos = varintForm value width ++ rest) :
    MinimalAt buf pos next ↔ next = pos + width ∧ width = varintShortest value := by
  -- What is decoded at the position is the form that lies there.
  have decoded : decodeVarint buf pos = .ok (value, pos + width, width) :=
    decodeVarint_eq_ok.mpr ⟨legal, rfl, rest, here⟩
  simp only [MinimalAt, decoded, Except.ok.injEq, Prod.mk.injEq]
  constructor
  · intro minimal
    obtain ⟨_, _, ⟨rfl, rfl, rfl⟩, least⟩ := minimal
    rw [varintLen_legal legal, Except.ok.injEq] at least
    exact ⟨rfl, least.symm⟩
  · intro minimal
    obtain ⟨rfl, least⟩ := minimal
    refine ⟨value, width, ⟨rfl, rfl, rfl⟩, ?_⟩
    rw [varintLen_legal legal, ← least]

/-- A join on the wire is minimal when every integer of the body it spells is. -/
theorem joinMinimal_iff {join : Join} (decoded : join.Decoded) {spelled : Bytes}
    {widths : List (Nat × Nat)} (reads : Reads varintFormat join.body widths spelled [])
    (token : Bytes) : JoinMinimal (pipeJoinPrefix ++ (spelled ++ token)) ↔
      Shortest varintFormat widths := by
  simp only [Join.body, nums, reads_bytes_iff, reads_num_iff, reads_done_iff] at reads
  obtain ⟨_, rfl, first, _, _, legal, rfl, rfl, _, rfl, second, _, _, lawful, rfl, rfl,
    third, _, _, fits, rfl, rfl, rfl, rfl⟩ := reads
  have few : join.locator.length < 256 := Nat.lt_of_le_of_lt decoded.locator.2 (by decide)
  have count : (UInt8.ofNat join.locator.length).toNat = join.locator.length :=
    UInt8.toNat_ofNat_of_lt' few
  have wide : (varintFormat.form join.pipe first).length = first := varintFormat.form_length legal
  have long : (varintFormat.form join.fateGroup second).length = second :=
    varintFormat.form_length lawful
  generalize buffer : pipeJoinPrefix ++ _ = buf
  have found : item buf pipeJoinPrefix.length = .ok (UInt8.ofNat join.locator.length) := by
    rw [← buffer]
    simp [item]
  -- Each of the three integers lies behind what comes before it.
  have pipeHere : buf.drop (pipeJoinPrefix.length + 1 + join.locator.length) =
      varintFormat.form join.pipe first ++ (UInt8.ofNat join.flags ::
        (varintFormat.form join.fateGroup second ++
          (varintFormat.form (join.priority.getD pipePriorityDefault) third ++ token))) := by
    rw [← buffer, Nat.add_assoc, ← List.drop_drop, List.drop_left, Nat.add_comm]
    simp
  have fateHere : buf.drop (pipeJoinPrefix.length + 1 + join.locator.length + first + 1) =
      varintFormat.form join.fateGroup second ++
        (varintFormat.form (join.priority.getD pipePriorityDefault) third ++ token) := by
    rw [Nat.add_assoc _ first, ← List.drop_drop, pipeHere, ← List.drop_drop, List.drop_left' wide]
    rfl
  have priorityHere : buf.drop
      (pipeJoinPrefix.length + 1 + join.locator.length + first + 1 + second) =
      varintFormat.form (join.priority.getD pipePriorityDefault) third ++ token := by
    rw [← List.drop_drop, fateHere, List.drop_left' long]
  -- The body has three integers, so its list of widths has three entries.
  have all : Shortest varintFormat [(join.pipe, first), (join.fateGroup, second),
      (join.priority.getD pipePriorityDefault, third)] ↔ first = varintShortest join.pipe ∧
        second = varintShortest join.fateGroup ∧
        third = varintShortest (join.priority.getD pipePriorityDefault) := by
    simp [Shortest, varintFormat]
  rw [all]
  constructor
  · intro minimal
    obtain ⟨ln, pipeEnd, fateEnd, priorityEnd, here, one, two, three⟩ := minimal
    rw [found, Except.ok.injEq] at here
    rw [← here, count] at one
    obtain ⟨rfl, pipe⟩ := (minimalAt_iff legal pipeHere).mp one
    obtain ⟨rfl, fate⟩ := (minimalAt_iff lawful fateHere).mp two
    exact ⟨pipe, fate, ((minimalAt_iff fits priorityHere).mp three).2⟩
  · intro least
    obtain ⟨pipe, fate, priority⟩ := least
    refine ⟨_, _, _, _, found, ?_, (minimalAt_iff lawful fateHere).mpr ⟨rfl, fate⟩,
      (minimalAt_iff fits priorityHere).mpr ⟨rfl, priority⟩⟩
    rw [count]
    exact (minimalAt_iff legal pipeHere).mpr ⟨rfl, pipe⟩

/--
The token of a join is checked against the bytes of the join as they were sent.

The input of the hash is the frame without its last 16 bytes, and these are what its result is compared with.
-/
def CoversAsSent (sent : Bytes) (join : Join) : Prop :=
  -- The first part is about the bytes, the second about every hash over them.
  joinBytesWithoutToken join = .ok (sent.take (sent.length - 16)) ∧
  ∀ hmac secret role binding, verifyJoin hmac secret role join binding =
    (joinKey hmac secret role).map fun key => decide
      ((hmac key (sent.take (sent.length - 16) ++ binding)).take 16 =
        sent.drop (sent.length - 16))

/-- The token of a join is checked against the bytes as sent exactly when its integers are minimal. -/
theorem coversAsSent_iff {sent : Bytes} {join : Join}
    (decoded : decodeFrame sent 0 sent.length = .ok (.pipeJoin join, sent.length)) :
    CoversAsSent sent join ↔ JoinMinimal sent := by
  obtain ⟨left, placed, next⟩ := decodeFrame_eq_ok.mp decoded
  have formed : join.Decoded := placed.decoded
  have long := formed.token
  -- The frame is its type, a spelling of its body, and its token, and nothing is left.
  obtain ⟨rest, rfl, starts⟩ := (typed_layout_iff rfl).mp placed.spelled
  have opening : _ = pipeJoinPrefix := typePrefix_eq placed.decoded rfl rfl
  have shorter := placed.length_lt
  have empty : left = [] := List.eq_nil_of_length_eq_zero (by omega)
  subst empty
  rw [opening]
  obtain ⟨middle, body, token⟩ := starts_append_iff.mp starts
  have same : middle = join.token := by simpa using token
  subst same
  obtain ⟨widths, reads⟩ := body
  obtain ⟨spelled, rfl, alone⟩ := reads_prefix_iff.mp reads
  obtain ⟨fits, -⟩ := reads_short alone
  -- The last 16 bytes of the frame are its token.
  have cut : (pipeJoinPrefix ++ (spelled ++ join.token)).length - 16 =
      (pipeJoinPrefix ++ spelled).length := by
    rw [← List.append_assoc, List.length_append, long, Nat.add_sub_cancel]
  have front : (pipeJoinPrefix ++ (spelled ++ join.token)).take
      ((pipeJoinPrefix ++ (spelled ++ join.token)).length - 16) = pipeJoinPrefix ++ spelled := by
    rw [cut, ← List.append_assoc, List.take_left]
  have back : (pipeJoinPrefix ++ (spelled ++ join.token)).drop
      ((pipeJoinPrefix ++ (spelled ++ join.token)).length - 16) = join.token := by
    rw [cut, ← List.append_assoc, List.drop_left]
  -- The input has the body in its shortest spelling, so the two agree if that was sent.
  have input := joinBytesWithoutToken_eq_ok formed fits
  rw [joinMinimal_iff formed alone, ← reads_eq_short_iff alone, CoversAsSent, front, back, input]
  constructor
  · intro covers
    rw [Except.ok.injEq] at covers
    exact List.append_cancel_left covers.1
  · intro least
    rw [least] at input ⊢
    refine ⟨rfl, ?_⟩
    intro hmac secret role binding
    rw [verifyJoin, joinToken_eq long input]
    cases joinKey hmac secret role <;> rfl

/-- In its shortest form, this join is covered as sent. -/
theorem coversAsSent_iff_plain :
    CoversAsSent (pipeJoinPrefix ++ ([1, 7, 2, 0, 0, 0] ++ List.replicate 16 0)) plainJoin ↔
      JoinMinimal (pipeJoinPrefix ++ ([1, 7, 2, 0, 0, 0] ++ List.replicate 16 0)) :=
  coversAsSent_iff (by decide +kernel)

/-- With its pipe in two bytes, the join decodes alike, but its input is not what was sent. -/
theorem coversAsSent_wide :
    decodeFrame (pipeJoinPrefix ++ ([1, 7, 0x40, 2, 0, 0, 0] ++ List.replicate 16 0)) 0 27 =
      .ok (.pipeJoin plainJoin, 27) ∧
    ¬ CoversAsSent (pipeJoinPrefix ++ ([1, 7, 0x40, 2, 0, 0, 0] ++ List.replicate 16 0))
      plainJoin := by
  refine ⟨by decide +kernel, ?_⟩
  intro covers
  -- The input has the pipe in one byte, so it is one byte shorter.
  have other : joinBytesWithoutToken plainJoin ≠
      .ok ((pipeJoinPrefix ++ ([1, 7, 0x40, 2, 0, 0, 0] ++ List.replicate 16 0)).take
        ((pipeJoinPrefix ++ ([1, 7, 0x40, 2, 0, 0, 0] ++ List.replicate 16 0)).length - 16)) := by
    decide +kernel
  exact other covers.1

end Zmux
