import Mathlib.Data.Nat.Init
import Zmux.Codec.Crypto

/-! The key expansion is HKDF-Expand of RFC 5869 for every length. -/

namespace Zmux

open Wire

section Keyed

variable (hmac : Bytes → Bytes → Bytes) (prk info : Bytes)

/-- The blocks of the expansion: the empty one, then each from the one before and its own number. -/
def hkdfBlock : Nat → Bytes
  | 0 => []
  | i + 1 => hmac prk (hkdfBlock i ++ info ++ [UInt8.ofNat (i + 1)])

/-- The blocks from the first to a given one, joined. -/
def hkdfBlocks : Nat → Bytes
  | 0 => []
  | i + 1 => hkdfBlocks i ++ hkdfBlock hmac prk info (i + 1)

variable {hmac prk info}

/-- More blocks begin with fewer. -/
theorem hkdfBlocks_front {i j : Nat} (fewer : i ≤ j) :
    hkdfBlocks hmac prk info i <+: hkdfBlocks hmac prk info j := by
  induction j, fewer using Nat.le_induction with
  | base => exact List.prefix_refl _
  | succ j _ ih => exact ih.trans (List.prefix_append _ _)

/-- A number of a block is written as one byte. -/
theorem oneByte_number {i : Nat} (below : i < 256) : oneByte i = .ok [UInt8.ofNat i] :=
  if_pos below

/-- There is no block behind the last one that one byte can number. -/
theorem oneByte_last : oneByte 256 = .error (.valueError "bytes must be in range(0, 256)") := rfl

/-- One turn of the loop appends the next block. -/
theorem hkdfExpandFrom_step {length i : Nat} {out t : Bytes} (short : out.length < length)
    (below : i < 256) : hkdfExpandFrom hmac prk info length out t i =
      hkdfExpandFrom hmac prk info length (out ++ hmac prk (t ++ info ++ [UInt8.ofNat i]))
        (hmac prk (t ++ info ++ [UInt8.ofNat i])) (i + 1) := by
  rw [hkdfExpandFrom, if_pos short]
  -- The number of the block is one byte, as the branch that was taken says.
  split
  · rename_i failed
    rw [oneByte_number below] at failed
    cases failed
  · rename_i number numbered
    rw [oneByte_number below] at numbered
    cases numbered
    rfl

/-- The loop stops when the output is long enough, and cuts it to length. -/
theorem hkdfExpandFrom_stop {length i : Nat} {out t : Bytes} (enough : length ≤ out.length) :
    hkdfExpandFrom hmac prk info length out t i = .ok (out.take length) := by
  rw [hkdfExpandFrom, if_neg (Nat.not_lt.mpr enough)]

/-- Behind the last block the loop raises when more output is wanted. -/
theorem hkdfExpandFrom_raise {length : Nat} {out t : Bytes} (short : out.length < length) :
    hkdfExpandFrom hmac prk info length out t 256 =
      .error (.valueError "bytes must be in range(0, 256)") := by
  rw [hkdfExpandFrom, if_pos short]
  split
  · rename_i failed
    rw [oneByte_last] at failed
    cases failed
    rfl
  · rename_i numbered
    rw [oneByte_last] at numbered
    cases numbered

variable (wide : ∀ key message, (hmac key message).length = 32)

include wide

/-- So many blocks have thirty-two bytes each. -/
theorem hkdfBlocks_length (i : Nat) : (hkdfBlocks hmac prk info i).length = 32 * i := by
  induction i with
  | zero => rfl
  | succ i ih =>
    -- Every block but the empty one is an output of the hash.
    rw [hkdfBlocks, List.length_append, ih, hkdfBlock, wide]
    omega

/-- The first bytes of enough blocks do not depend on how many there are. -/
theorem take_hkdfBlocks {length i j : Nat} (enough : length ≤ 32 * i) (others : length ≤ 32 * j) :
    (hkdfBlocks hmac prk info i).take length = (hkdfBlocks hmac prk info j).take length := by
  have long := @hkdfBlocks_length hmac prk info wide
  -- The fewer blocks are a front of the more, and already have the bytes in question.
  rcases Nat.le_total i j with fewer | fewer
  · obtain ⟨rest, more⟩ := @hkdfBlocks_front hmac prk info _ _ fewer
    rw [← more, List.take_append_of_le_length (by rw [long]; exact enough)]
  · obtain ⟨rest, more⟩ := @hkdfBlocks_front hmac prk info _ _ fewer
    rw [← more, List.take_append_of_le_length (by rw [long]; exact others)]

/-- The loop at a block, with the blocks up to it in the output, completes them. -/
theorem hkdfExpandFrom_blocks {length i : Nat} (within : i ≤ 255) (fits : length ≤ 32 * 255) :
    hkdfExpandFrom hmac prk info length (hkdfBlocks hmac prk info i) (hkdfBlock hmac prk info i)
      (i + 1) = .ok ((hkdfBlocks hmac prk info 255).take length) := by
  have long := @hkdfBlocks_length hmac prk info wide
  -- The induction is on the blocks that are left.
  induction within using Nat.decreasingInduction with
  | self => rw [hkdfExpandFrom_stop (by rw [long]; exact fits)]
  | of_succ i below ih =>
    by_cases enough : length ≤ 32 * i
    · rw [hkdfExpandFrom_stop (by rw [long]; exact enough), take_hkdfBlocks wide enough fits]
    -- The block that is appended is the next one, so the loop stands at that block.
    · rw [hkdfExpandFrom_step (by rw [long]; omega) (by omega)]
      exact ih

/-- The loop at a block raises when more is wanted than all blocks together hold. -/
theorem hkdfExpandFrom_exhausted {length i : Nat} (within : i ≤ 255) (beyond : 32 * 255 < length) :
    hkdfExpandFrom hmac prk info length (hkdfBlocks hmac prk info i) (hkdfBlock hmac prk info i)
      (i + 1) = .error (.valueError "bytes must be in range(0, 256)") := by
  have long := @hkdfBlocks_length hmac prk info wide
  induction within using Nat.decreasingInduction with
  | self => exact hkdfExpandFrom_raise (by rw [long]; exact beyond)
  | of_succ i below ih =>
    rw [hkdfExpandFrom_step (by rw [long]; omega) (by omega)]
    exact ih

/-- An output that can be made is the front of the joined blocks. -/
theorem hkdfExpand_eq_ok {length : Nat} (fits : length ≤ 255 * 32) :
    hkdfExpand hmac prk info length = .ok ((hkdfBlocks hmac prk info 255).take length) := by
  -- The loop begins at the empty block.
  exact @hkdfExpandFrom_blocks hmac prk info wide length 0 (by decide) (by omega)

end Keyed

/-- Every length up to 255 blocks is expanded as in RFC 5869, and a greater one is refused. -/
theorem hkdfExpand_rfc5869 (hmac : Bytes → Bytes → Bytes)
    (wide : ∀ key message, (hmac key message).length = 32) (prk info : Bytes) :
    (∀ length ≤ 255 * 32, ∃ out, hkdfExpand hmac prk info length = .ok out ∧
      out.length = length ∧
      ∀ n, length ≤ 32 * n → out = (hkdfBlocks hmac prk info n).take length) ∧
    (∀ (fewer more : Nat) (short long : Bytes), fewer ≤ more → more ≤ 255 * 32 →
      hkdfExpand hmac prk info fewer = .ok short → hkdfExpand hmac prk info more = .ok long →
      short <+: long) ∧
    ∀ length > 255 * 32, ∃ fault, hkdfExpand hmac prk info length = .error fault := by
  refine ⟨?_, ?_, ?_⟩
  · intro length fits
    refine ⟨_, hkdfExpand_eq_ok wide fits, ?_, ?_⟩
    · rw [List.length_take, hkdfBlocks_length wide]
      omega
    · intro n enough
      exact take_hkdfBlocks wide (by omega) enough
  · intro fewer more short long below fits first second
    rw [hkdfExpand_eq_ok wide (Nat.le_trans below fits), Except.ok.injEq] at first
    rw [hkdfExpand_eq_ok wide fits, Except.ok.injEq] at second
    -- Both are fronts of the same blocks.
    rw [← first, ← second]
    exact List.take_prefix_take_left below
  · intro length beyond
    exact ⟨_, @hkdfExpandFrom_exhausted hmac prk info wide length 0 (by decide) (by omega)⟩

/-- A hash that begins with the length of its input gives 42 bytes, out of two blocks. -/
theorem hkdfExpand_rfc5869_lengths :
    ∃ out, hkdfExpand (fun _ message => UInt8.ofNat message.length :: List.replicate 31 0)
        [1] [2] 42 = .ok out ∧ out.length = 42 ∧ out[0]? = some 2 ∧ out[32]? = some 34 := by
  obtain ⟨out, made, long, blocks⟩ := (hkdfExpand_rfc5869
    (fun _ message => UInt8.ofNat message.length :: List.replicate 31 0)
    (fun _ _ => by rw [List.length_cons, List.length_replicate]) [1] [2]).1 42 (by decide)
  refine ⟨out, made, long, ?_⟩
  rw [blocks 2 (by decide)]
  decide

end Zmux
