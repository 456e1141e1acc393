import Zmux.Proofs.SentParameters

/-! Unknown parameters and the order of parameters make no difference to a block. -/

namespace Zmux

open Wire

variable {tp : SentTp} {original extras sent : List SentTp}

/-- The value of an unknown parameter is kept as it is. -/
theorem sentParam_unknown (unknown : tpById tp.number = none) :
    ValidTp tp ∧ sentParam tp = ⟨.num tp.number, .raw tp.value⟩ := by
  -- Without a row of the registry there is nothing to refuse or to decode.
  have kept : decodeTpValue tp.number tp.value = .ok ⟨.num tp.number, .raw tp.value⟩ := by
    simp only [decodeTpValue, unknown]
  refine ⟨⟨?_, _, kept⟩, by rw [sentParam, kept]⟩
  intro row found
  rw [unknown] at found
  cases found

/-- No number reserved for ignored parameters is registered. -/
theorem tpById_grease (n : Nat) : tpById (greaseTp n) = none := by
  -- All of these numbers leave the same remainder, which no registered number leaves.
  have table : ∀ row ∈ transportParameters, row.id % 31 ≠ 27 := by decide
  cases found : tpById (greaseTp n) with
  | none => rfl
  | some row =>
    obtain ⟨member, same⟩ := tpById_eq_some.mp found
    have other := table row member
    rw [same, greaseTp] at other
    omega

/-- The parameters of a block in another order, with unknown ones of new numbers among them. -/
structure Interspersed (original extras sent : List SentTp) : Prop where
  perm : sent.Perm (original ++ extras)
  unknown : ∀ tp ∈ extras, tpById tp.number = none
  distinct : (extras.map Tlv.number).Nodup
  new : ∀ tp ∈ extras, tp.number ∉ original.map Tlv.number

namespace Interspersed

/-- Unknown parameters are valid, so the others decide whether all of them are. -/
theorem valid_iff (mixed : Interspersed original extras sent) :
    (∀ tp ∈ sent, ValidTp tp) ↔ ∀ tp ∈ original, ValidTp tp := by
  -- Every parameter is an original one or an unknown one.
  constructor
  · intro valid tp member
    exact valid tp (mixed.perm.mem_iff.mpr (List.mem_append_left _ member))
  · intro valid tp member
    rcases List.mem_append.mp (mixed.perm.mem_iff.mp member) with known | extra
    · exact valid tp known
    · exact (sentParam_unknown (mixed.unknown tp extra)).1

/-- The numbers added differ among themselves and from the others. -/
theorem nodup_iff (mixed : Interspersed original extras sent) :
    (sent.map Tlv.number).Nodup ↔ (original.map Tlv.number).Nodup := by
  rw [(mixed.perm.map Tlv.number).nodup_iff, List.map_append, List.nodup_append]
  constructor
  · intro distinct
    exact distinct.1
  · intro distinct
    refine ⟨distinct, mixed.distinct, ?_⟩
    intro number known other extra same
    obtain ⟨tp, member, rfl⟩ := List.mem_map.mp extra
    exact mixed.new tp member (same ▸ known)

/-- Blocks with the same named parameters give the same values by name. -/
theorem tpDict_eq (mixed : Interspersed original extras sent)
    (valid : ∀ tp ∈ original, ValidTp tp) (distinct : (original.map Tlv.number).Nodup) :
    tpDict (sent.map sentParam) = tpDict (original.map sentParam) := by
  -- A value stands under a name in either block because some parameter decodes to it.
  funext name
  apply Option.ext
  intro value
  rw [tpDict_sent (mixed.valid_iff.mpr valid) (mixed.nodup_iff.mpr distinct),
    tpDict_sent valid distinct]
  constructor
  · intro found
    rcases found with ⟨tp, member, same⟩
    -- A parameter that was added stands under no name.
    rcases List.mem_append.mp (mixed.perm.mem_iff.mp member) with known | extra
    · exact ⟨tp, known, same⟩
    · rw [(sentParam_unknown (mixed.unknown tp extra)).2] at same
      cases same
  · intro found
    rcases found with ⟨tp, member, same⟩
    exact ⟨tp, mixed.perm.mem_iff.mpr (List.mem_append_left _ member), same⟩

/-- A parameter sent decodes to one of the original ones exactly when its number is one of theirs. -/
theorem mem_iff (mixed : Interspersed original extras sent) (valid : ∀ tp ∈ sent, ValidTp tp)
    (member : tp ∈ sent) :
    sentParam tp ∈ original.map sentParam ↔ tp.number ∈ original.map Tlv.number := by
  constructor
  · intro decoded
    obtain ⟨other, known, same⟩ := List.mem_map.mp decoded
    have there := mixed.perm.mem_iff.mpr (List.mem_append_left _ known)
    rw [← (valid tp member).sent, ← same, (valid other there).sent]
    exact List.mem_map_of_mem known
  · intro numbered
    -- The numbers of what was added are none of the original ones.
    rcases List.mem_append.mp (mixed.perm.mem_iff.mp member) with known | extra
    · exact List.mem_map_of_mem known
    · exact absurd numbered (mixed.new tp extra)

end Interspersed

/--
Unknown parameters and the order of parameters make no difference to a block.

It is accepted as without them and in any order, and gives the same values by name.
The original parameters come out in the order in which they were sent.
-/
theorem decodeTps_order :
    (∀ n, tpById (greaseTp n) = none) ∧
    ∀ original extras sent : List SentTp, Interspersed original extras sent →
      ((∃ decoded, decodeTps (Tlv.block sent) = .ok decoded) ↔
        ∃ params, decodeTps (Tlv.block original) = .ok params) ∧
      ∀ decoded params, decodeTps (Tlv.block sent) = .ok decoded →
        decodeTps (Tlv.block original) = .ok params →
        tpDict decoded = tpDict params ∧
        (decoded.filter fun param => param ∈ params).Perm params ∧
        (decoded.filter fun param => param ∈ params).map (fun param => param.id.sent) =
          (sent.filter fun tp => tp.number ∈ original.map Tlv.number).map Tlv.number := by
  refine ⟨tpById_grease, ?_⟩
  intro original extras sent mixed
  simp only [decodeTps_block]
  refine ⟨?_, ?_⟩
  · -- Both blocks have valid parameters together, and then the checks see the same values.
    constructor
    · intro accepted
      rcases accepted with ⟨_, valid, distinct, rfl, dict, checked⟩
      have known := mixed.valid_iff.mp valid
      have differ := mixed.nodup_iff.mp distinct
      rw [validateTps_congr (mixed.tpDict_eq known differ)] at checked
      exact ⟨_, known, differ, rfl, dict, checked⟩
    · intro accepted
      rcases accepted with ⟨_, valid, distinct, rfl, dict, checked⟩
      rw [← validateTps_congr (mixed.tpDict_eq valid distinct)] at checked
      exact ⟨_, mixed.valid_iff.mpr valid, mixed.nodup_iff.mpr distinct, rfl, dict, checked⟩
  · intro decoded params first second
    -- Both blocks decode to their parameters as sent, each in its own order.
    rcases first with ⟨valid, -, rfl, -⟩
    rcases second with ⟨known, distinct, rfl, -⟩
    refine ⟨mixed.tpDict_eq known distinct, ?_, ?_⟩
    · -- None of the parameters added decodes to one of the original ones.
      have none : (extras.map sentParam).filter
          (fun param => param ∈ original.map sentParam) = [] := by
        rw [List.filter_eq_nil_iff]
        intro param member
        obtain ⟨tp, extra, rfl⟩ := List.mem_map.mp member
        have there := mixed.perm.mem_iff.mpr (List.mem_append_right _ extra)
        rw [decide_eq_true_eq, mixed.mem_iff valid there]
        exact mixed.new tp extra
      have all : (original.map sentParam).filter (fun param => param ∈ original.map sentParam) =
          original.map sentParam := by
        rw [List.filter_eq_self]
        intro param member
        exact decide_eq_true member
      -- The rest is the original block up to its order, since the whole is.
      have perm := (mixed.perm.map sentParam).filter fun param => param ∈ original.map sentParam
      rwa [List.map_append, List.filter_append, none, all, List.append_nil] at perm
    · rw [List.filter_map, List.map_map]
      -- Either way the same parameters are chosen, by what they decode to or by their numbers.
      have chosen :
          sent.filter ((fun param => decide (param ∈ original.map sentParam)) ∘ sentParam) =
            sent.filter fun tp => tp.number ∈ original.map Tlv.number := by
        apply List.filter_congr
        intro tp member
        exact decide_eq_decide.mpr (mixed.mem_iff valid member)
      rw [chosen]
      apply List.map_congr_left
      intro tp member
      exact (valid tp (List.mem_filter.mp member).1).sent

/-- A parameter whose number, count and value take one byte each. -/
def smallTpSent (number : Nat) (value : UInt8) (small : number < 64) : SentTp :=
  ⟨number, [value], 1, 1, ⟨.inl rfl, small⟩, ⟨.inl rfl, show 1 < 2 ^ (8 * 1 - 2) by decide⟩⟩

/-- Two limits that change places, with an ignored parameter between them, are read as before. -/
theorem decodeTps_order_swapped :
    let data := smallTpSent 4 5 (by decide)
    let streams := smallTpSent 8 2 (by decide)
    let ignored := smallTpSent 58 7 (by decide)
    ∃ decoded, decodeTps (Tlv.block [streams, ignored, data]) = .ok decoded ∧
      tpDict decoded = tpDict [⟨.name .initialMaxData, .value (.varint 5)⟩,
        ⟨.name .initialMaxStreamsBidi, .value (.varint 2)⟩] ∧
      (decoded.filter fun param => param ∈ [(⟨.name .initialMaxData, .value (.varint 5)⟩ : Param),
        ⟨.name .initialMaxStreamsBidi, .value (.varint 2)⟩]).map (fun param => param.id.sent) =
          [8, 4] := by
  intro data streams ignored
  -- Number 58 has no row of its own, so the parameter is ignored.
  have mixed : Interspersed [data, streams] [ignored] [streams, ignored, data] := by
    refine ⟨@List.perm_append_comm _ [streams, ignored] [data], ?_, by decide, ?_⟩
    · rw [List.forall_mem_singleton]
      exact tpById_grease 1
    · rw [List.forall_mem_singleton]
      decide
  have read : decodeTps (Tlv.block [data, streams]) =
      .ok [⟨.name .initialMaxData, .value (.varint 5)⟩,
        ⟨.name .initialMaxStreamsBidi, .value (.varint 2)⟩] := by
    decide +kernel
  obtain ⟨accepted, same⟩ := decodeTps_order.2 _ _ _ mixed
  obtain ⟨decoded, found⟩ := accepted.mpr ⟨_, read⟩
  obtain ⟨named, -, ordered⟩ := same decoded _ found read
  exact ⟨decoded, found, named, ordered⟩

end Zmux
