import Zmux.Proofs.ParameterFaults
import Zmux.Wire.Tlv

/-! A transport-parameter block as the parameters it was sent as, and the values it gives by name. -/

namespace Zmux

open Wire

/-- A parameter as it is sent: its number, then its value behind the value's byte count. -/
abbrev SentTp := Tlv varintFormat

/-- The parameter that a sent one decodes to. -/
def sentParam (tp : SentTp) : Param :=
  match decodeTpValue tp.number tp.value with
  | .ok param => param
  -- A value that does not decode is never asked for.
  | .error _ => ⟨.num tp.number, .raw tp.value⟩

/-- A sent parameter that may appear and whose value decodes. -/
structure ValidTp (tp : SentTp) : Prop where
  permitted : ∀ row, tpById tp.number = some row → row.scope ≠ .prohibited
  decodes : ∃ param, decodeTpValue tp.number tp.value = .ok param

variable {tp : SentTp} {tps : List SentTp} {param : Param} {params : List Param} {window : Bytes}

/-- A valid parameter is decoded to its value. -/
theorem ValidTp.valued (valid : ValidTp tp) :
    decodeTpValue tp.number tp.value = .ok (sentParam tp) := by
  -- The value decodes to some parameter, which is the one chosen.
  obtain ⟨param, decoded⟩ := valid.decodes
  rw [sentParam, decoded]

/-- A valid parameter decodes to the one that its number and its bytes spell. -/
theorem sentParam_iff : ValidTp tp ∧ sentParam tp = param ↔ param.Decoded ∧
    param.id.sent = tp.number ∧ Starts varintFormat param.content.layout tp.value [] := by
  -- The value decodes exactly when it is spelled, and to the parameter that is spelled.
  constructor
  · intro sent
    rcases sent with ⟨valid, rfl⟩
    exact (decodeTpValue_eq_ok valid.permitted).mp valid.valued
  · intro spelled
    rcases spelled with ⟨decoded, sent, starts⟩
    have permitted : ∀ row, tpById tp.number = some row → row.scope ≠ .prohibited := by
      intro row found
      rw [← sent] at found
      exact decoded.allowed found
    have valued := (decodeTpValue_eq_ok permitted).mpr ⟨decoded, sent, starts⟩
    exact ⟨⟨permitted, param, valued⟩, by rw [sentParam, valued]⟩

/-- A valid parameter keeps the number it is sent under. -/
theorem ValidTp.sent (valid : ValidTp tp) : (sentParam tp).id.sent = tp.number :=
  (sentParam_iff.mp ⟨valid, rfl⟩).2.1

/-- What a valid parameter is decoded to is in the decoded form. -/
theorem ValidTp.decoded (valid : ValidTp tp) : (sentParam tp).Decoded :=
  -- What is decoded is spelled by the parameter that is sent.
  (sentParam_iff.mp ⟨valid, rfl⟩).1

/-- Decoded parameters are spelled by the blocks of valid parameters that decode to them. -/
theorem tpsLayout_block : (∀ param ∈ params, param.Decoded) ∧
    Starts varintFormat (tpsLayout params) window [] ↔ ∃ tps : List SentTp,
      window = Tlv.block tps ∧ (∀ tp ∈ tps, ValidTp tp) ∧ tps.map sentParam = params := by
  -- The induction is on the parameters, each of which is sent in some widths.
  induction params generalizing window with
  | nil =>
    constructor
    · intro spelled
      exact ⟨[], starts_done_iff.mp spelled.2, by simp, rfl⟩
    · intro sent
      rcases sent with ⟨tps, rfl, -, none⟩
      rw [List.map_eq_nil_iff.mp none]
      exact ⟨by simp, starts_done_iff.mpr rfl⟩
  | cons param params ih =>
    rw [tpsLayout, starts_append_iff]
    constructor
    · intro spelled
      rcases spelled with ⟨each, middle, first, others⟩
      obtain ⟨raw, sent, part⟩ := param_layout_iff.mp first
      obtain ⟨tp, number, rfl, rfl⟩ := starts_tlv_iff.mp sent
      obtain ⟨tps, rfl, valid, rfl⟩ := ih.mp
        ⟨fun other member => each other (List.mem_cons_of_mem _ member), others⟩
      obtain ⟨known, same⟩ := sentParam_iff.mpr
        ⟨each param List.mem_cons_self, number.symm, part⟩
      refine ⟨tp :: tps, rfl, List.forall_mem_cons.mpr ⟨known, valid⟩, ?_⟩
      rw [List.map_cons, same]
    · intro sent
      rcases sent with ⟨tps, rfl, valid, same⟩
      cases tps with
      | nil => cases same
      | cons tp tps =>
        cases same
        obtain ⟨known, others⟩ := List.forall_mem_cons.mp valid
        obtain ⟨each, starts⟩ := ih.mpr ⟨tps, rfl, others, rfl⟩
        obtain ⟨decoded, number, part⟩ := sentParam_iff.mp ⟨known, rfl⟩
        refine ⟨List.forall_mem_cons.mpr ⟨decoded, each⟩, Tlv.block tps, ?_, starts⟩
        exact param_layout_iff.mpr ⟨tp.value, starts_tlv_iff.mpr ⟨tp, number.symm, rfl, rfl⟩, part⟩

/-- The numbers of valid parameters are those of what they decode to. -/
theorem map_sent (valid : ∀ tp ∈ tps, ValidTp tp) :
    (tps.map sentParam).map (fun param => param.id.sent) = tps.map Tlv.number := by
  -- Each parameter keeps its own number.
  rw [List.map_map]
  exact List.map_congr_left fun tp member => (valid tp member).sent

/-- A block decodes when it is sent as valid parameters of different numbers that pass the checks. -/
theorem decodeTps_sent : decodeTps window = .ok params ↔ ∃ tps : List SentTp,
    window = Tlv.block tps ∧ (∀ tp ∈ tps, ValidTp tp) ∧ (tps.map Tlv.number).Nodup ∧
    tps.map sentParam = params ∧ ∃ dict, validateTps params = .ok dict := by
  -- The layout of the block is spelled by the parameters that are sent.
  rw [decodeTps_eq_ok]
  constructor
  · intro spelled
    rcases spelled with ⟨⟨each, distinct, checked⟩, starts⟩
    obtain ⟨tps, rfl, valid, rfl⟩ := tpsLayout_block.mp ⟨each, starts⟩
    rw [map_sent valid] at distinct
    exact ⟨tps, rfl, valid, distinct, rfl, checked⟩
  · intro sent
    rcases sent with ⟨tps, rfl, valid, distinct, rfl, checked⟩
    obtain ⟨each, starts⟩ := tpsLayout_block.mpr ⟨tps, rfl, valid, rfl⟩
    rw [← map_sent valid] at distinct
    exact ⟨⟨each, distinct, checked⟩, starts⟩

/-- What a block of given parameters decodes to. -/
theorem decodeTps_block : decodeTps (Tlv.block tps) = .ok params ↔
    (∀ tp ∈ tps, ValidTp tp) ∧ (tps.map Tlv.number).Nodup ∧ tps.map sentParam = params ∧
    ∃ dict, validateTps params = .ok dict := by
  -- No other parameters are sent as the same bytes.
  rw [decodeTps_sent]
  constructor
  · intro sent
    rcases sent with ⟨others, same, decoded⟩
    rw [Tlv.block_injective varint_positive same]
    exact decoded
  · intro decoded
    exact ⟨tps, rfl, decoded⟩

/-- A parameter without a registered name adds no value. -/
theorem tpDict_unknown (params : List Param) (id : Nat) (content : TpContent) :
    tpDict (params ++ [⟨.num id, content⟩]) = tpDict params := by
  -- The last step of the fold leaves the dictionary as it is.
  simp [tpDict, List.foldl_append]

/-- A named parameter adds its value under its name. -/
theorem tpDict_named (params : List Param) (name key : TpName) (value : TpValue) :
    tpDict (params ++ [⟨.name name, .value value⟩]) key =
      if key = name then some value else tpDict params key := by
  -- The last step of the fold replaces what stands under the name.
  simp [tpDict, List.foldl_append]

/-- A value stands under a name exactly when a parameter of that name carries it. -/
theorem tpDict_eq_some (each : ∀ param ∈ params, param.Decoded)
    (distinct : (params.map fun param => param.id.sent).Nodup) {name : TpName} {value : TpValue} :
    tpDict params name = some value ↔ ⟨.name name, .value value⟩ ∈ params := by
  -- The induction is on the last parameter, which no earlier one has the name of.
  induction params using List.reverseRecOn with
  | nil => simp [tpDict]
  | append_singleton params last ih =>
    rw [List.map_append, List.nodup_append] at distinct
    rcases distinct with ⟨earlier, -, apart⟩
    have step := ih (fun param member => each param (List.mem_append_left _ member)) earlier
    rcases (each last (by simp)).kinds with ⟨id, literal, rfl, -⟩ | ⟨row, _, given, rfl, listed, -⟩
    · rw [tpDict_unknown, step]
      simp
    · rw [tpDict_named]
      by_cases same : name = row.name
      · subst same
        -- An earlier parameter of this name would have been sent under the same number.
        have new : ⟨.name row.name, .value value⟩ ∉ params := by
          intro member
          exact apart _ (List.mem_map_of_mem member) _ (by simp) rfl
        simp [new, eq_comm]
      · rw [if_neg same, step]
        simp [same]

/-- The checks of a block look only at the values that it gives by name. -/
theorem validateTps_congr {others : List Param} (same : tpDict params = tpDict others) :
    validateTps params = validateTps others := by
  -- The dictionary is all that the checks are given.
  simp only [validateTps, same]

section Values

variable (valid : ∀ tp ∈ tps, ValidTp tp) (distinct : (tps.map Tlv.number).Nodup) {name : TpName}

include valid

/-- All parameters of a valid block are in the decoded form. -/
theorem sentParams_decoded : ∀ param ∈ tps.map sentParam, param.Decoded := by
  -- Each parameter decodes on its own.
  intro param member
  obtain ⟨tp, listed, rfl⟩ := List.mem_map.mp member
  exact (valid tp listed).decoded

include distinct

/-- A value stands under a name when a parameter that is sent decodes to it. -/
theorem tpDict_sent {value : TpValue} : tpDict (tps.map sentParam) name = some value ↔
    ∃ tp ∈ tps, sentParam tp = ⟨.name name, .value value⟩ := by
  rw [tpDict_eq_some (sentParams_decoded valid) (by rw [map_sent valid]; exact distinct),
    List.mem_map]

end Values

end Zmux
