import Zmux.Proofs.ParameterBlock
import Zmux.Wire.Faults

/-! A transport-parameter block is refused with the error of transport parameters only. -/

namespace Zmux

open Wire

/-- A decode error with a given code. -/
def Failure.HasCode (code : TransportError) (fault : Failure) : Prop :=
  -- Only the wording is left open.
  ∃ reason, fault = .decodeError code reason

/-- An error has the code that it is raised with. -/
theorem hasCode_decodeError {code : TransportError} {reason : String} :
    (Failure.decodeError code reason).HasCode code := ⟨reason, rfl⟩

/-- A check of the codec raises the error it names. -/
theorem faults_check {refused : Prop} [Decidable refused] {code : TransportError}
    {reason : String} : Faults (raiseIf refused (Failure.decodeError code reason))
      (Failure.HasCode code) :=
  -- The check names its own code.
  faults_raiseIf fun _ => hasCode_decodeError

/-- An integer fails with the code that it is decoded with. -/
theorem decodeVarint_faults (buf : Bytes) (pos : Nat) (code : TransportError) :
    Faults (decodeVarint buf pos code) (Failure.HasCode code) := by
  -- Want of bytes is the only failure, and it comes with the code that is asked for.
  intro fault failed
  exact ⟨_, (decodeVarint_eq_error.mp failed).1⟩

/-- A parameter is read, or fails with the error of parameters. -/
theorem readTp_faults (buf : Bytes) (pos : Nat) :
    Faults (readTp buf pos) (Failure.HasCode TPE) := by
  -- The steps of a read can fail in turn: the number, the length, and the bytes of the value.
  refine (decodeVarint_faults _ _ _).bind ?_
  intro first _
  refine (decodeVarint_faults _ _ _).bind ?_
  intro second _
  refine faults_check.bind ?_
  intro _ _
  exact faults_ok _

section Values

/-- A value of one integer fails with the error of parameters only. -/
theorem decodeTpVarint_faults (name : TpName) (raw : Bytes) :
    Faults (decodeTpVarint name raw) (Failure.HasCode TPE) := by
  -- The integer may be cut short, or leave bytes behind it.
  refine (decodeVarint_faults _ _ _).bind ?_
  intro answer _
  refine faults_check.bind ?_
  intro _ _
  exact faults_ok _

/-- An empty value fails with the error of parameters only. -/
theorem decodeTpEmpty_faults (name : TpName) (raw : Bytes) :
    Faults (decodeTpEmpty name raw) (Failure.HasCode TPE) := by
  -- The one check of an empty value is on its bytes.
  refine faults_check.bind ?_
  intro _ _
  exact faults_ok _

/-- A role fails with the error of parameters only. -/
theorem decodeTpRole_faults (raw : Bytes) :
    Faults (decodeTpRole raw) (Failure.HasCode TPE) := by
  -- The role may be cut short, unknown, or followed by the wrong number of bytes.
  refine (decodeVarint_faults _ _ _).bind ?_
  intro answer _
  refine faults_check.bind ?_
  intro _ checked
  -- Every code that passes the check is listed, so the look-up cannot fail.
  have listed : ∃ role, entry roleValues answer.1 = .ok role := by
    have known := raiseIf_eq_ok.mp checked
    rw [not_not] at known
    have table : ∀ code ∈ [0, 1, 2], ∃ role, entry roleValues code = .ok role := by
      intro code member
      simp only [List.mem_cons, List.not_mem_nil, or_false] at member
      rcases member with rfl | rfl | rfl <;> exact ⟨_, rfl⟩
    exact table _ known
  obtain ⟨role, found⟩ := listed
  simp only [found, ok_bind]
  -- The two branches differ in the number of bytes that they ask for.
  split
  · refine faults_check.bind ?_
    intro _ _
    exact faults_ok _
  · refine faults_check.bind ?_
    intro _ _
    exact faults_ok _

/-- A multipath value fails with the error of parameters only. -/
theorem decodeTpMultipath_faults (raw : Bytes) :
    Faults (decodeTpMultipath raw) (Failure.HasCode TPE) := by
  -- The first check makes both look-ups safe, so only checks can fail.
  refine faults_check.bind ?_
  intro _ checked
  have long := raiseIf_eq_ok.mp checked
  -- The value is long enough for the two bytes that are looked up in it.
  have found : ∀ pos, pos < 18 → ∃ byte, item raw pos = .ok byte := by
    intro pos small
    have below : pos < raw.length := by omega
    exact ⟨raw[pos], by simp [item, below]⟩
  obtain ⟨flags, first⟩ := found 0 (by decide)
  obtain ⟨ln, last⟩ := found 17 (by decide)
  simp only [first, last, ok_bind]
  refine faults_check.bind ?_
  intro _ _
  refine faults_check.bind ?_
  intro _ _
  exact faults_ok _

/-- A number of lanes fails with the error of parameters only. -/
theorem decodeTpLanes_faults (raw : Bytes) :
    Faults (decodeTpLanes raw) (Failure.HasCode TPE) := by
  -- The number may be cut short, and the key and the number are each checked.
  refine (decodeVarint_faults _ _ _).bind ?_
  intro answer _
  refine faults_check.bind ?_
  intro _ _
  refine faults_check.bind ?_
  intro _ _
  exact faults_ok _

end Values

/-- Whatever the format of a parameter, its value is refused with the same code. -/
theorem decodeTpValue_faults (num : Nat) (raw : Bytes) :
    Faults (decodeTpValue num raw) (Failure.HasCode TPE) := by
  -- Values without a format are kept as they are, and each format has its own decoder.
  unfold decodeTpValue
  cases tpById num with
  | none => exact faults_ok _
  | some row =>
    simp only
    split
    · exact faults_ok _
    · cases row.format with
      | none => exact faults_ok _
      | some format =>
        cases format with
        | opaqueBytes => exact faults_ok _
        | varint => exact (decodeTpVarint_faults _ _).map _
        | empty => exact (decodeTpEmpty_faults _ _).map _
        | role => exact (decodeTpRole_faults _).map _
        | multipath => exact (decodeTpMultipath_faults _).map _
        | lanes => exact (decodeTpLanes_faults _).map _

/-- A prohibited parameter is refused with the error of parameters. -/
theorem refuseProhibited_faults (num : Nat) :
    Faults (refuseProhibited num) (Failure.HasCode TPE) := by
  -- A number without a row is not refused.
  unfold refuseProhibited
  cases tpById num with
  | none => exact faults_ok _
  | some row => exact faults_check

/-- The loop over a block raises no other error. -/
theorem decodeTpsFrom_faults {buf : Bytes} {pos : Nat} {out : List Param} {seen : List Nat} :
    Faults (decodeTpsFrom buf pos out seen) (Failure.HasCode TPE) := by
  -- The induction is on the bytes that are left.
  induction width : buf.length - pos using Nat.strongRecOn generalizing pos out seen with
  | _ width ih =>
    subst width
    by_cases below : pos < buf.length
    · rw [decodeTpsFrom_step below]
      refine (readTp_faults _ _).bind ?_
      intro answer read
      have forward := readTp_forward read
      refine faults_check.bind ?_
      intro _ _
      refine (refuseProhibited_faults _).bind ?_
      intro _ _
      refine (decodeTpValue_faults _ _).bind ?_
      intro param _
      exact ih _ (by omega) rfl
    · rw [decodeTpsFrom, if_neg below]
      exact faults_ok _

/-- A value in a dictionary comes from a parameter of that name, in the format of its row. -/
theorem tpDict_some {params : List Param} (each : ∀ param ∈ params, param.Decoded)
    {name : TpName} {value : TpValue} (found : tpDict params name = some value) :
    ∃ row format, tpByName name = .ok row ∧ row.format = some format ∧ value.InFormat format := by
  -- The dictionary begins empty, and each parameter adds a value of its own format at most.
  refine List.foldlRecOn params _ (motive := fun dict : TpDict => ∀ value, dict name = some value →
    ∃ row format, tpByName name = .ok row ∧ row.format = some format ∧ value.InFormat format)
    ?_ ?_ value found
  -- Before the first parameter nothing is there.
  · intro value empty
    cases empty
  -- A parameter replaces the value under its own name, and leaves the others.
  · intro dict before param member value chosen
    have decoded := each param member
    obtain ⟨id, content⟩ := param
    cases id with
    | num id => exact before value chosen
    | name other =>
      cases content with
      | raw => exact decoded.elim
      | value given =>
        by_cases same : name = other
        · simp only [if_pos same, Option.some.injEq] at chosen
          obtain ⟨row, format, registered, -, formatted, formed⟩ := decoded
          rw [same, ← chosen]
          exact ⟨row, format, registered, formatted, formed⟩
        · simp only [if_neg same] at chosen
          exact before value chosen

/-- The names of the parameters that the checks use as integers. -/
def integerNames : List TpName :=
  [.maxRecordSize, .initialMaxStreamsBidi, .initialMaxStreamsUni, .zmuxPreamble,
    .initialMaxStreamDataBidiRemote, .initialMaxStreamDataUni, .zmuxAckThreshold, .zmuxMaxAckDelay,
    .zmuxResume]

/-- A value under one of these names is an integer. -/
theorem tpDict_int {params : List Param} (each : ∀ param ∈ params, param.Decoded)
    {name : TpName} (listed : name ∈ integerNames) {value : TpValue}
    (found : tpDict params name = some value) : ∃ number, value.int = .ok number := by
  -- The table gives these names the format of integers.
  obtain ⟨row, format, registered, formatted, formed⟩ := tpDict_some each found
  have table : ∀ row ∈ transportParameters, row.name ∈ integerNames →
      row.format = some .varint := by decide
  obtain ⟨member, rfl⟩ := tpByName_eq_ok.mp registered
  rw [table row member listed] at formatted
  cases formatted
  cases value with
  | varint number => exact ⟨number, rfl⟩
  | _ => exact formed.elim

/-- An integer that is looked up, or its default, is there. -/
theorem tpDict_default {params : List Param} (each : ∀ param ∈ params, param.Decoded)
    {name : TpName} (listed : name ∈ integerNames) (default : Nat) :
    ∃ number, ((tpDict params name).getD (.varint default)).int = .ok number := by
  -- A default is an integer, and so is a value that is there.
  cases found : tpDict params name with
  | none => exact ⟨default, rfl⟩
  | some value => exact tpDict_int each listed found

/-- A value out of range is refused with the error of parameters. -/
theorem refuseValue_faults {value : Option TpValue} {refused : Nat → Bool} {reason : String}
    (integer : ∀ present, value = some present → ∃ number, present.int = .ok number) :
    Faults (refuseValue value refused reason) (Failure.HasCode TPE) := by
  -- A value that is absent is not checked, and one that is there is an integer.
  cases value with
  | none => exact faults_ok _
  | some present =>
    obtain ⟨number, read⟩ := integer present rfl
    simp only [refuseValue, read, ok_bind]
    exact faults_check

/-- The checks of a preamble compare integers only. -/
theorem validateTpPreamble_faults {params : List Param}
    (each : ∀ param ∈ params, param.Decoded) :
    Faults (validateTpPreamble (tpDict params)) (Failure.HasCode TPE) := by
  -- With every integer there, only the five checks are left.
  unfold validateTpPreamble
  split
  · exact faults_ok _
  · rename_i preamble found
    obtain ⟨limit, read⟩ := tpDict_int each (by decide) found
    obtain ⟨ownMrs, size⟩ := tpDict_default each (by decide : TpName.maxRecordSize ∈ integerNames)
      Limits.defaultMaxRecordSize
    obtain ⟨remote, bidi⟩ := tpDict_default each
      (by decide : TpName.initialMaxStreamDataBidiRemote ∈ integerNames) 0
    obtain ⟨single, uni⟩ := tpDict_default each
      (by decide : TpName.initialMaxStreamDataUni ∈ integerNames) 0
    simp only [read, size, bidi, uni, ok_bind]
    refine faults_check.bind ?_
    intro _ _
    refine faults_check.bind ?_
    intro _ _
    refine faults_check.bind ?_
    intro _ _
    refine faults_check.bind ?_
    intro _ _
    exact faults_check

/-- Decoded parameters that fail a check fail it with the error of transport parameters. -/
theorem validateTps_faults {params : List Param} (each : ∀ param ∈ params, param.Decoded) :
    Faults (validateTps params) (Failure.HasCode TPE) := by
  -- The checks are taken in the order in which they are made, each with the same code.
  have checked : ∀ (name : TpName) (refused : Nat → Bool) (reason : String), name ∈ integerNames →
      Faults (refuseValue (tpDict params name) refused reason) (Failure.HasCode TPE) :=
    fun _ _ _ listed => refuseValue_faults fun _ found => tpDict_int each listed found
  refine (checked _ _ _ (by decide)).bind ?_
  intro _ _
  refine (checked _ _ _ (by decide)).bind ?_
  intro _ _
  refine (checked _ _ _ (by decide)).bind ?_
  intro _ _
  refine (validateTpPreamble_faults each).bind ?_
  intro _ _
  refine faults_check.bind ?_
  intro _ _
  refine faults_check.bind ?_
  intro _ _
  refine faults_check.bind ?_
  intro _ _
  refine faults_check.bind ?_
  intro _ _
  refine (checked _ _ _ (by decide)).bind ?_
  intro _ _
  refine (checked _ _ _ (by decide)).bind ?_
  intro _ _
  refine (checked _ _ _ (by decide)).bind ?_
  intro _ _
  exact faults_ok _

/-- A block that is refused is refused with the error of transport parameters. -/
theorem decodeTps_faults (block : Bytes) :
    Faults (decodeTps block) (Failure.HasCode TPE) := by
  -- The checks are made only on parameters that the loop has decoded.
  refine .bind decodeTpsFrom_faults ?_
  intro out decoded
  obtain ⟨params, rfl, ⟨each, -⟩, -⟩ := decodeTpsFrom_eq_ok.mp decoded
  refine (validateTps_faults each).bind ?_
  intro _ _
  exact faults_ok _

end Zmux
