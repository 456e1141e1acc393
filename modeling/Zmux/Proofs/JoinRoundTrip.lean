import Zmux.Proofs.JoinMac

/-! A join arrives as it was built, and is accepted with its own token only. -/

namespace Zmux

open Wire

/-- A well-formed join with nothing left to a default is decoded from its own encoding. -/
theorem Join.WellFormed.received {request : Join} (formed : request.WellFormed)
    (complete : request.explicit = request) : ∃ bytes,
      encodeFrame (.pipeJoin request) = .ok bytes ∧
      decodeFrame bytes 0 bytes.length = .ok (.pipeJoin request, bytes.length) := by
  -- A join is a frame with a name, and its token ends it.
  have shape : (Frame.pipeJoin request).WellFormed := formed
  have explicit : (Frame.pipeJoin request).explicit = .pipeJoin request := by
    rw [Frame.explicit, complete]
  exact shape.received explicit rfl id

section Keyed

variable {hmac : Bytes → Bytes → Bytes} {secret binding : Bytes} {role : Role}

/-- The token of a join does not depend on the token that the join carries. -/
theorem joinToken_blank (request : Join) (token : Bytes) :
    joinToken hmac secret role { request with token := token } binding =
      joinToken hmac secret role request binding := rfl

/-- A join is accepted with one token only. -/
theorem verifyJoin_eq {request : Join} {own : Bytes}
    (made : joinToken hmac secret role request binding = .ok own) (token : Bytes) :
    verifyJoin hmac secret role { request with token := token } binding =
      .ok (decide (own = token)) := by
  -- The token to compare with is made again from the rest of the join.
  rw [verifyJoin, joinToken_blank, made]
  rfl

/-- One bit of a token that is changed makes it another token of the same length. -/
theorem spoilToken_eq {token : Bytes} (some : token ≠ []) : ∃ spoiled,
    spoilToken token = .ok spoiled ∧ spoiled.length = token.length ∧ spoiled ≠ token := by
  obtain ⟨first, others, rfl⟩ := List.exists_cons_of_ne_nil some
  refine ⟨(first ^^^ 0x01) :: others, rfl, rfl, ?_⟩
  intro same
  -- Only zero bits leave a byte as it is.
  have head : first ^^^ 0x01 = first ^^^ 0 := by
    rw [(List.cons.inj same).1, UInt8.xor_zero]
  have bit : (0x01 : UInt8) = 0 := (UInt8.xor_right_inj first).mp head
  cases bit

variable (wide : ∀ key message, (hmac key message).length = 32)

include wide

/-- The key of a join is one block of the expansion. -/
theorem joinKey_eq_ok : ∃ key, joinKey hmac secret role = .ok key := by
  -- The loop stops behind its first block, which has all the bytes that are asked for.
  unfold joinKey hkdfExpand
  generalize (if role = .initiator then hkdfJoinInitiator else hkdfJoinResponder) = info
  have first : oneByte 1 = .ok [1] := rfl
  rw [hkdfExpandFrom, if_pos (show ([] : Bytes).length < 32 by decide)]
  split
  · rename_i failed
    rw [first] at failed
    cases failed
  · rename_i number _
    have enough : ¬ ([] ++ hmac secret ([] ++ info ++ number)).length < 32 := by
      rw [List.nil_append, wide]
      decide
    rw [hkdfExpandFrom, if_neg enough]
    exact ⟨_, rfl⟩

/-- A well-formed join has a token, of 16 bytes. -/
theorem joinToken_eq_ok {request : Join} (formed : request.WellFormed) : ∃ token,
    joinToken hmac secret role request binding = .ok token ∧ token.length = 16 := by
  obtain ⟨key, derived⟩ := @joinKey_eq_ok hmac secret role wide
  rw [joinToken_eq formed.token formed.input, derived]
  -- The token is the front half of a code of 32 bytes.
  refine ⟨_, rfl, ?_⟩
  rw [List.length_take, wide]
  rfl

end Keyed

/--
A join survives the wire, and is accepted exactly with its own token.

The join is built with any secret, role, binding, flags and integers in range, over any hash with an output of 32 bytes.
Its token is the front half of the hash of its input and its binding, under the key of its role.
With any other token it arrives as well and is refused, and the token made from it on arrival is still its own.
-/
theorem join_accepted (hmac : Bytes → Bytes → Bytes)
    (wide : ∀ key message, (hmac key message).length = 32) (secret : Bytes) (role : Role)
    (locator : Bytes) (located : 1 ≤ locator.length ∧ locator.length ≤ 16)
    (pipe fateGroup priority : Nat)
    (range : pipe ≤ maxVarint ∧ fateGroup ≤ maxVarint ∧ priority ≤ maxVarint)
    (direction : Direction) (carrierBound standby : Bool) (binding : Bytes) :
    ∃ f bytes,
      join hmac secret pipe (.named direction) fateGroup locator role binding false carrierBound
        priority standby = .ok f ∧
      (∃ key front, joinKey hmac secret role = .ok key ∧ joinBytesWithoutToken f = .ok front ∧
        f.token = (hmac key (front ++ binding)).take 16) ∧
      encodeFrame (.pipeJoin f) = .ok bytes ∧
      decodeFrame bytes 0 bytes.length = .ok (.pipeJoin f, bytes.length) ∧
      verifyJoin hmac secret role f binding = .ok true ∧
      (∃ bad, bad ≠ f.token ∧ bad.length = 16 ∧
        join hmac secret pipe (.named direction) fateGroup locator role binding true carrierBound
          priority standby = .ok { f with token := bad }) ∧
      ∀ token : Bytes, token.length = 16 →
        (token ≠ f.token → verifyJoin hmac secret role { f with token := token } binding =
          .ok false) ∧
        ∃ sent, encodeFrame (.pipeJoin { f with token := token }) = .ok sent ∧
          decodeFrame sent 0 sent.length =
            .ok (.pipeJoin { f with token := token }, sent.length) ∧
          joinToken hmac secret role { f with token := token } binding = .ok f.token := by
  rcases range with ⟨first, second, third⟩
  -- The join with any token of the right length is well-formed, and leaves nothing to a default.
  let built (token : Bytes) : Join := {
    locator, pipe, direction := .named direction, carrierBound := some carrierBound
    standby := some standby, reservedFlags := none, fateGroup, priority := some priority, token }
  have formed : ∀ token : Bytes, token.length = 16 → (built token).WellFormed :=
    fun token long => ⟨located, ⟨_, rfl⟩, rfl, first, second, third, long⟩
  have blank := formed (List.replicate 16 0) List.length_replicate
  obtain ⟨own, made, long⟩ := @joinToken_eq_ok hmac secret binding role wide _ blank
  obtain ⟨bytes, encoded, decoded⟩ := (formed own long).received rfl
  have some : own ≠ [] := by
    intro empty
    rw [empty] at long
    cases long
  obtain ⟨bad, spoiled, same, other⟩ := spoilToken_eq some
  refine ⟨built own, bytes, ?_, ?_, encoded, decoded, ?_, ⟨bad, other, same.trans long, ?_⟩, ?_⟩
  · show joinToken hmac secret role (built _) binding >>= _ = _
    rw [made]
    rfl
  · -- The token does not depend on the one that the join carries, so it is that of the built join.
    have whole := made
    rw [← joinToken_blank _ own, joinToken_eq (formed own long).token (formed own long).input] at whole
    obtain ⟨key, derived, halved⟩ := map_eq_ok.mp whole
    exact ⟨key, _, derived, (formed own long).input, halved.symm⟩
  · rw [verifyJoin_eq made own, decide_eq_true rfl]
  · show joinToken hmac secret role (built _) binding >>= _ = _
    simp only [made, ok_bind, if_true, spoiled, pure_ok]
    rfl
  · intro token sixteen
    obtain ⟨sent, written, read⟩ := (formed token sixteen).received rfl
    refine ⟨?_, sent, written, read, made⟩
    intro differs
    rw [show ({ built own with token := token } : Join) = { built (List.replicate 16 0) with
      token := token } from rfl, verifyJoin_eq made token, decide_eq_false (Ne.symm differs)]

/-- A hash that begins with the length of its input, and has zeros behind it. -/
def lengthHash (_ message : Bytes) : Bytes := UInt8.ofNat message.length :: List.replicate 31 0

/-- A join of pipe 2 has 14 bytes of input under such a hash, and is accepted with that token only. -/
theorem join_accepted_plain :
    ∃ f bytes,
      join lengthHash [] 2 (.named .up) 0 localLocator .initiator [] false false 0 false = .ok f ∧
      f.token = 14 :: List.replicate 15 0 ∧
      encodeFrame (.pipeJoin f) = .ok bytes ∧
      decodeFrame bytes 0 bytes.length = .ok (.pipeJoin f, bytes.length) ∧
      verifyJoin lengthHash [] .initiator f [] = .ok true ∧
      verifyJoin lengthHash [] .initiator { f with token := List.replicate 16 0 } [] = .ok false := by
  obtain ⟨f, bytes, built, -, encoded, decoded, accepted, -, others⟩ :=
    join_accepted lengthHash (fun _ _ => by rw [lengthHash, List.length_cons, List.length_replicate])
      [] .initiator localLocator (by decide) 2 0 0 (by decide) .up false false []
  have whole : join lengthHash [] 2 (.named .up) 0 localLocator .initiator [] false false 0 false =
      .ok { locator := localLocator, pipe := 2, direction := .named .up, carrierBound := some false,
            standby := some false, reservedFlags := none, fateGroup := 0, priority := some 0,
            token := 14 :: List.replicate 15 0 } := by
    decide +kernel
  rw [built, Except.ok.injEq] at whole
  subst whole
  -- The blank token is not the one that the length is in front of.
  exact ⟨_, bytes, built, rfl, encoded, decoded, accepted, (others _ rfl).1 (by decide)⟩

end Zmux
