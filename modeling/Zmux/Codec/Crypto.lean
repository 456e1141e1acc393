import Zmux.Codec.Frames

/-! The key schedule of pipe joins, over any keyed hash. -/

namespace Zmux

open Wire

/-- The bytes of a label, which is in ASCII without a terminating zero. -/
def label (text : String) : Bytes := text.toList.map fun letter => UInt8.ofNat letter.toNat

/-- The label of the join key when the initiator joins. -/
def hkdfJoinInitiator : Bytes := label "zmux join i"

/-- The label of the join key when the responder joins. -/
def hkdfJoinResponder : Bytes := label "zmux join r"

section Keyed

variable (hmac : Bytes → Bytes → Bytes)

/-- The loop of `hkdfExpand`, with the output so far, the last block and the number of the next. -/
def hkdfExpandFrom (prk info : Bytes) (length : Nat) (out t : Bytes) (i : Nat) :
    Except Failure Bytes :=
  if out.length < length then
    match numbered : oneByte i with
    | .error fault => .error fault
    | .ok number =>
      -- A block's number is one byte, so there are at most 255 of them.
      have _below : i < 256 := by
        by_contra large
        rw [oneByte, if_neg large] at numbered
        cases numbered
      let t := hmac prk (t ++ info ++ number)
      hkdfExpandFrom prk info length (out ++ t) t (i + 1)
  else .ok (out.take length)
termination_by 256 - i

/-- So many bytes of key material, for a label. -/
def hkdfExpand (prk info : Bytes) (length : Nat := 32) : Except Failure Bytes :=
  hkdfExpandFrom hmac prk info length [] [] 1

/-- The key of the joins that an endpoint of a role makes. -/
def joinKey (secret : Bytes) (joinerRole : Role) : Except Failure Bytes :=
  -- The two roles have labels of their own, so a token cannot be sent back.
  hkdfExpand hmac secret
    (if joinerRole = .initiator then hkdfJoinInitiator else hkdfJoinResponder) 32

/-- The token of a join, whatever its own token is. -/
def joinToken (secret : Bytes) (joinerRole : Role) (joinFrame : Join)
    (carrierBinding : Bytes := []) : Except Failure Bytes := do
  let f := { joinFrame with token := List.replicate 16 0 }
  -- The token is not part of what it authenticates.
  let macPrefix ← joinBytesWithoutToken f
  let key ← joinKey hmac secret joinerRole
  let mac := hmac key (macPrefix ++ carrierBinding)
  -- The token is the front half of the code.
  return mac.take 16

/-- Whether the token of a join is the one that its sender must have computed. -/
def verifyJoin (secret : Bytes) (joinerRole : Role) (joinFrame : Join)
    (carrierBinding : Bytes := []) : Except Failure Bool := do
  let token ← joinToken hmac secret joinerRole joinFrame carrierBinding
  return decide (token = joinFrame.token)

/-- A token with the lowest bit of its first byte changed. -/
def spoilToken (token : Bytes) : Except Failure Bytes := do
  let first ← item token 0
  return (first ^^^ 0x01) :: token.drop 1

/-- The locator of the local endpoint in the traces. -/
def localLocator : Bytes := label "LOCAL"

/-- A join with its token, or with a spoiled one. -/
def join (secret : Bytes) (pipe : Nat) (direction : DirectionField := .named .up)
    (fateGroup : Nat := 0) (locator : Bytes := localLocator) (role : Role := .initiator)
    (carrierBinding : Bytes := []) (badToken carrierBound : Bool := false) (priority : Nat := 0)
    (standby : Bool := false) : Except Failure Join := do
  let f : Join := {
    locator, pipe, direction, carrierBound := some carrierBound, standby := some standby
    reservedFlags := none, fateGroup, priority := some priority, token := List.replicate 16 0 }
  -- The token is computed over the join with a blank one.
  let token ← joinToken hmac secret role f carrierBinding
  let token ← if badToken then spoilToken token else pure token
  return { f with token := token }

end Keyed

end Zmux
