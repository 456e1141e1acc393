import Zmux.Proofs.SentParameters

/-! A transport-parameter block is accepted exactly by the rules for its parameters. -/

namespace Zmux

open Wire

/-- A byte string is a form of a number, and nothing else. -/
def Spells (number : Nat) (bytes : Bytes) : Prop :=
  ∃ width, VarintLegal number width ∧ bytes = varintForm number width

/-- The bytes of a value are exactly what a format asks for. -/
def TpFormat.Holds : TpFormat → Bytes → Prop
  | varint, raw => ∃ number, Spells number raw
  | empty, raw => raw = []
  | role, raw => ∃ (which : Role) (form nonce : Bytes), raw = form ++ nonce ∧
    Spells which.code form ∧ nonce.length = if which = .auto then 8 else 0
  | multipath, raw => ∃ (flags count : UInt8) (nonce locator : Bytes),
    raw = flags :: (nonce ++ count :: locator) ∧ nonce.length = 16 ∧
    locator.length = count.toNat ∧ locator.length ≤ Limits.maxLocatorBytes
  | lanes, raw => ∃ (maxLanes : Nat) (form key : Bytes), raw = form ++ key ∧
    Spells maxLanes form ∧ 1 ≤ maxLanes ∧ key.length = Limits.laneKeyBytes
  -- No parameter of the registry has opaque bytes as its format.
  | opaqueBytes, _ => True

/-- A parameter that is not prohibited, and whose value has its format if the registry has it. -/
def KnownTp (tp : SentTp) : Prop :=
  ∀ row, tpById tp.number = some row →
    row.scope ≠ .prohibited ∧ ∀ format ∈ row.format, format.Holds tp.value

/-- A parameter of a name is sent. -/
def Present (tps : List SentTp) (name : TpName) : Prop :=
  ∃ tp ∈ tps, tp.number = (TpId.name name).sent

/-- A parameter of a name is sent with a number as its value. -/
def Offers (tps : List SentTp) (name : TpName) (number : Nat) : Prop :=
  ∃ tp ∈ tps, tp.number = (TpId.name name).sent ∧ Spells number tp.value

/-- The number that counts for a name: the one sent, or a default when none is. -/
def Counts (tps : List SentTp) (name : TpName) (default number : Nat) : Prop :=
  Offers tps name number ∨ ¬ Present tps name ∧ number = default

/-- The parameters that are only sent along with those that acknowledge. -/
def ackCompanions : List TpName := [.zmuxAckThreshold, .zmuxMaxAckDelay, .zmuxMaxLanes]

/-- The ranges of the values of a block, and what they ask of one another. -/
structure TpRules (tps : List SentTp) : Prop where
  maxRecordSize : ∀ size, Offers tps .maxRecordSize size → Limits.defaultMaxRecordSize ≤ size
  maxStreamsBidi : ∀ count, Offers tps .initialMaxStreamsBidi count → count ≤ 2 ^ 60
  maxStreamsUni : ∀ count, Offers tps .initialMaxStreamsUni count → count ≤ 2 ^ 60
  preamble : ∀ bound, Offers tps .zmuxPreamble bound → Present tps .resetStreamAt ∧ 1 ≤ bound ∧
    ∃ size remote uni, Counts tps .maxRecordSize Limits.defaultMaxRecordSize size ∧
      Counts tps .initialMaxStreamDataBidiRemote 0 remote ∧
      Counts tps .initialMaxStreamDataUni 0 uni ∧
      bound ≤ min (size - Limits.maxPreambleTpOverhead) (min remote uni)
  companions : ∀ name ∈ ackCompanions, Present tps name →
    Present tps .zmuxMultipath ∨ Present tps .zmuxPipeAck
  ackThreshold : ∀ count, Offers tps .zmuxAckThreshold count → 1024 ≤ count
  maxAckDelay : ∀ delay, Offers tps .zmuxMaxAckDelay delay → delay < 2 ^ 14
  resume : ∀ time, Offers tps .zmuxResume time → 1 ≤ time
  resumed : Present tps .zmuxResume → Present tps .zmuxMultipath

/-- Parameters that make up an acceptable block. -/
structure AcceptableTps (tps : List SentTp) : Prop where
  distinct : (tps.map Tlv.number).Nodup
  known : ∀ tp ∈ tps, KnownTp tp
  rules : TpRules tps

variable {tp : SentTp} {tps : List SentTp} {name : TpName} {number : Nat} {raw : Bytes}

/-- A layout of one number is spelled by the forms of the number. -/
theorem starts_num_spells : Starts varintFormat (.num number .done) raw [] ↔ Spells number raw := by
  -- A number on its own is a form of it, with nothing behind.
  simp [Begins, Spells, varintFormat]

/-- A value has a format exactly when it is laid out as some value of the format. -/
theorem holds_iff {format : TpFormat} (known : format ≠ .opaqueBytes) : format.Holds raw ↔
    ∃ value : TpValue, value.InFormat format ∧ Starts varintFormat value.layout raw [] := by
  -- Each format has values of its own kind, whose layouts ask for the same bytes.
  cases format with
  | varint =>
    constructor
    · intro holds
      rcases holds with ⟨number, spells⟩
      exact ⟨.varint number, trivial, starts_num_spells.mpr spells⟩
    · intro laid
      rcases laid with ⟨value, formed, starts⟩
      cases value with
      | varint number => exact ⟨number, starts_num_spells.mp starts⟩
      | _ => exact formed.elim
  | empty =>
    constructor
    · intro holds
      exact ⟨.none, trivial, starts_done_iff.mpr holds⟩
    · intro laid
      rcases laid with ⟨value, formed, starts⟩
      cases value with
      | none => exact starts_done_iff.mp starts
      | _ => exact formed.elim
  | role =>
    constructor
    · intro holds
      rcases holds with ⟨which, _, nonce, rfl, ⟨width, legal, rfl⟩, long⟩
      by_cases last : which = .auto
      · -- Eight bytes are the number that the nonce stands for.
        subst last
        have eight : nonce.length = 8 := long
        have bound := foldBytes_lt nonce
        have bytes := bigEndian_foldBytes nonce
        rw [eight] at bound bytes
        refine ⟨.role .auto (some (foldBytes 0 nonce)), ⟨_, rfl, bound⟩, ?_⟩
        simp only [TpValue.layout, Option.map_some, Option.getD_some, bytes]
        exact starts_num_bytes_iff.mpr ⟨width, legal, rfl⟩
      · rw [if_neg last] at long
        rw [List.eq_nil_of_length_eq_zero long]
        refine ⟨.role which none, by simp [TpValue.InFormat, last], ?_⟩
        exact starts_num_bytes_iff.mpr ⟨width, legal, rfl⟩
    · intro laid
      rcases laid with ⟨value, formed, starts⟩
      cases value with
      | role which nonce =>
        obtain ⟨width, legal, same⟩ := starts_num_bytes_iff.mp starts
        refine ⟨which, _, _, same, ⟨width, legal, rfl⟩, ?_⟩
        cases which with
        | auto =>
          rcases formed with ⟨number, rfl, -⟩
          simp
        | _ =>
          cases formed
          rfl
      | _ => exact formed.elim
  | multipath =>
    constructor
    · intro holds
      rcases holds with ⟨flags, count, nonce, locator, rfl, long, same, short⟩
      refine ⟨.multipath flags.toNat nonce locator, ⟨flags.toNat_lt, long, short⟩, ?_⟩
      simp [TpValue.layout, same]
    · intro laid
      rcases laid with ⟨value, formed, starts⟩
      cases value with
      | multipath flags nonce locator =>
        rcases formed with ⟨small, long, short⟩
        simp only [TpValue.layout, starts_bytes_iff, starts_done_iff, ↓existsAndEq,
          List.append_nil, and_true] at starts
        have few : locator.length < 256 := Nat.lt_of_le_of_lt short (by decide)
        exact ⟨_, _, nonce, locator, starts, long, (UInt8.toNat_ofNat_of_lt' few).symm, short⟩
      | _ => exact formed.elim
  | lanes =>
    constructor
    · intro holds
      rcases holds with ⟨maxLanes, _, key, rfl, ⟨width, legal, rfl⟩, positive, long⟩
      exact ⟨.lanes maxLanes key, ⟨by omega, long⟩, starts_num_bytes_iff.mpr ⟨width, legal, rfl⟩⟩
    · intro laid
      rcases laid with ⟨value, formed, starts⟩
      cases value with
      | lanes maxLanes key =>
        obtain ⟨width, legal, same⟩ := starts_num_bytes_iff.mp starts
        exact ⟨maxLanes, _, key, same, ⟨width, legal, rfl⟩, Nat.pos_of_ne_zero formed.1, formed.2⟩
      | _ => exact formed.elim
  | opaqueBytes => exact absurd rfl known

/-- A parameter is valid exactly when it is known in its format, or not known at all. -/
theorem validTp_iff : ValidTp tp ↔ KnownTp tp := by
  -- An unknown number has no row, and a registered one has a single row.
  cases found : tpById tp.number with
  | none =>
    -- The bytes of an unknown parameter are kept, whatever they are.
    have none : ∀ row, ¬ tpById tp.number = some row := by simp [found]
    constructor
    · intro _ row same
      exact absurd same (none row)
    · intro _
      refine ⟨fun row same => absurd same (none row), ⟨.num tp.number, .raw tp.value⟩, ?_⟩
      simp only [decodeTpValue, found]
  | some row =>
    obtain ⟨member, -⟩ := tpById_eq_some.mp found
    constructor
    · intro valid other same
      rw [found] at same
      cases same
      have permitted := valid.permitted row found
      refine ⟨permitted, ?_⟩
      intro format formatted
      obtain ⟨chosen, laid, known⟩ := format_of_allowed member permitted
      rw [laid] at formatted
      cases formatted
      obtain ⟨value, -, formed, starts⟩ :=
        (decodeTpValue_row found permitted laid known).mp valid.valued
      exact (holds_iff known).mpr ⟨value, formed, starts⟩
    · intro known
      obtain ⟨permitted, held⟩ := known row found
      obtain ⟨format, laid, plain⟩ := format_of_allowed member permitted
      obtain ⟨value, formed, starts⟩ := (holds_iff plain).mp (held format laid)
      refine ⟨?_, _, (decodeTpValue_row found permitted laid plain).mpr ⟨value, rfl, formed, starts⟩⟩
      intro other same
      rw [found] at same
      cases same
      exact permitted

/-- Every name has a row, which its parameter is sent under. -/
theorem name_row (name : TpName) : ∃ row ∈ transportParameters, row.name = name ∧
    (TpId.name name).sent = row.id := by
  -- The names are gone through one by one.
  have listed : ∃ row ∈ transportParameters, row.name = name := by
    cases name <;> decide
  rcases listed with ⟨row, member, rfl⟩
  exact ⟨row, member, rfl, sent_row member⟩

/-- Only an integer can be used as one. -/
theorem int_eq_ok {value : TpValue} : value.int = .ok number ↔ value = .varint number := by
  -- The other values raise an error.
  cases value <;> simp [TpValue.int]

section Values

variable (valid : ∀ tp ∈ tps, ValidTp tp) (distinct : (tps.map Tlv.number).Nodup)

include valid distinct

/-- Some value stands under a name exactly when a parameter of that name is sent. -/
theorem tpDict_present : tpDict (tps.map sentParam) name ≠ none ↔ Present tps name := by
  -- The registry connects the name of a value with the number it is sent under.
  rw [Option.ne_none_iff_exists']
  constructor
  · intro there
    rcases there with ⟨value, found⟩
    obtain ⟨tp, member, same⟩ := (tpDict_sent valid distinct).mp found
    refine ⟨tp, member, ?_⟩
    rw [← (valid tp member).sent, same]
  · intro present
    rcases present with ⟨tp, member, sent⟩
    obtain ⟨row, listed, rfl, number⟩ := name_row name
    have known := valid tp member
    -- The number of the parameter belongs to the row, so it decodes under the row's name.
    have found := (tp_row listed).2
    rw [← number, ← sent] at found
    have permitted := known.permitted row found
    obtain ⟨format, laid, plain⟩ := format_of_allowed listed permitted
    obtain ⟨value, same, -⟩ := (decodeTpValue_row found permitted laid plain).mp known.valued
    exact ⟨value, (tpDict_sent valid distinct).mpr ⟨tp, member, same⟩⟩

/-- No value stands under a name exactly when no parameter of that name is sent. -/
theorem tpDict_absent : tpDict (tps.map sentParam) name = none ↔ ¬ Present tps name := by
  rw [← tpDict_present valid distinct, not_not]

/-- A number stands under a name of integers exactly when it is offered there. -/
theorem tpDict_offers (integer : name ∈ integerNames) :
    tpDict (tps.map sentParam) name = some (.varint number) ↔ Offers tps name number := by
  -- The table has a row for integers under each of these names.
  have table : ∀ row ∈ transportParameters, row.name ∈ integerNames →
      row.scope ≠ .prohibited ∧ row.format = some .varint := by decide
  obtain ⟨row, listed, rfl, -⟩ := name_row name
  obtain ⟨permitted, laid⟩ := table row listed integer
  have decoded : Param.Decoded ⟨.name row.name, .value (.varint number)⟩ :=
    ⟨row, .varint, (tp_row listed).1, permitted, laid, trivial⟩
  rw [tpDict_sent valid distinct]
  constructor
  · intro found
    rcases found with ⟨tp, member, same⟩
    obtain ⟨-, sent, starts⟩ := sentParam_iff.mp ⟨valid tp member, same⟩
    exact ⟨tp, member, sent.symm, starts_num_spells.mp starts⟩
  · intro offered
    rcases offered with ⟨tp, member, sent, spells⟩
    have spelled := sentParam_iff.mpr ⟨decoded, sent.symm, starts_num_spells.mpr spells⟩
    exact ⟨tp, member, spelled.2⟩

/-- Nothing is offered under a name without a value. -/
theorem offers_absent (integer : name ∈ integerNames)
    (found : tpDict (tps.map sentParam) name = none) (number : Nat) :
    ¬ Offers tps name number := by
  -- A number that is offered would be the value under the name.
  intro offered
  rw [← tpDict_offers valid distinct integer, found] at offered
  cases offered

/-- The value under a name of integers is an integer, and the only one offered. -/
theorem offers_found (integer : name ∈ integerNames) {value : TpValue}
    (found : tpDict (tps.map sentParam) name = some value) :
    ∃ given, value.int = .ok given ∧ ∀ number, Offers tps name number ↔ given = number := by
  obtain ⟨given, read⟩ := tpDict_int (sentParams_decoded valid) integer found
  refine ⟨given, read, ?_⟩
  intro number
  rw [← tpDict_offers valid distinct integer, found, int_eq_ok.mp read]
  simp

/-- The number used for a name is the one that counts for it. -/
theorem tpDict_counts (integer : name ∈ integerNames) {default : Nat} :
    ((tpDict (tps.map sentParam) name).getD (.varint default)).int = .ok number ↔
      Counts tps name default number := by
  have present := @tpDict_present tps name valid distinct
  cases found : tpDict (tps.map sentParam) name with
  | none =>
    -- Nothing is offered without a parameter, so the default counts.
    have absent : ¬ Present tps name := by
      rw [← present, found, not_not]
    have nothing := offers_absent valid distinct integer found number
    simp [Counts, absent, nothing, TpValue.int, eq_comm]
  | some value =>
    have there : Present tps name := by
      rw [← present, found]
      exact Option.some_ne_none value
    rw [Option.getD_some, int_eq_ok, Counts, ← tpDict_offers valid distinct integer, found,
      Option.some.injEq]
    simp [there]

/-- A check of a value refuses the numbers that are offered and out of range. -/
theorem refuseValue_offers (integer : name ∈ integerNames) {refused : Nat → Bool}
    {reason : String} {answer : Unit} :
    refuseValue (tpDict (tps.map sentParam) name) refused reason = .ok answer ↔
      ∀ number, Offers tps name number → refused number = false := by
  cases found : tpDict (tps.map sentParam) name with
  | none =>
    -- Without a value there is nothing to check.
    have nothing := offers_absent valid distinct integer found
    simp [refuseValue, nothing]
  | some value =>
    obtain ⟨given, read, only⟩ := offers_found valid distinct integer found
    simp [refuseValue, read, only]

/-- A parameter that needs acknowledgements is let through when one of two others is there. -/
theorem requireAck_eq_ok {answer : Unit} :
    requireAck (tpDict (tps.map sentParam)) name = .ok answer ↔
      (Present tps name → Present tps .zmuxMultipath ∨ Present tps .zmuxPipeAck) := by
  -- The companion is refused when it is there and neither of the two others is.
  simp only [requireAck, raiseIf_eq_ok, ne_eq, tpDict_absent valid distinct, not_not]
  tauto

/-- A preamble passes its checks when its bound is in range and what it needs is sent. -/
theorem validateTpPreamble_eq_ok {answer : Unit} :
    validateTpPreamble (tpDict (tps.map sentParam)) = .ok answer ↔
      ∀ bound, Offers tps .zmuxPreamble bound → Present tps .resetStreamAt ∧ 1 ≤ bound ∧
        ∃ size remote uni, Counts tps .maxRecordSize Limits.defaultMaxRecordSize size ∧
          Counts tps .initialMaxStreamDataBidiRemote 0 remote ∧
          Counts tps .initialMaxStreamDataUni 0 uni ∧
          bound ≤ min (size - Limits.maxPreambleTpOverhead) (min remote uni) := by
  have integer : TpName.zmuxPreamble ∈ integerNames := by decide
  have sizes : TpName.maxRecordSize ∈ integerNames := by decide
  have remotes : TpName.initialMaxStreamDataBidiRemote ∈ integerNames := by decide
  have unis : TpName.initialMaxStreamDataUni ∈ integerNames := by decide
  cases found : tpDict (tps.map sentParam) .zmuxPreamble with
  | none =>
    -- Without a preamble there is nothing to check.
    have nothing := offers_absent valid distinct integer found
    simp [validateTpPreamble, found, nothing]
  | some value =>
    obtain ⟨given, read, only⟩ := offers_found valid distinct integer found
    simp only [validateTpPreamble, found, bind_eq_ok, raiseIf_eq_ok, read, Except.ok.injEq,
      tpDict_absent valid distinct, not_not, tpDict_counts valid distinct sizes,
      tpDict_counts valid distinct remotes, tpDict_counts valid distinct unis, only]
    constructor
    · intro passed
      obtain ⟨-, there, bound, rfl, -, least, size, first, -, small, remote, second, -, below,
        uni, third, short⟩ := passed
      intro other same
      subst same
      exact ⟨there, by omega, size, remote, uni, first, second, third, by omega⟩
    · intro rules
      obtain ⟨there, least, size, remote, uni, first, second, third, bound⟩ := rules given rfl
      exact ⟨(), there, given, rfl, (), by omega, size, first, (), by omega, remote, second, (),
        by omega, uni, third, by omega⟩

/-- The checks of a block pass exactly when its parameters keep to the rules. -/
theorem validateTps_eq_ok : (∃ dict, validateTps (tps.map sentParam) = .ok dict) ↔ TpRules tps := by
  -- Each check is one rule, and what it compares are the numbers that are offered.
  have offers := fun name integer refused reason answer =>
    @refuseValue_offers tps name valid distinct integer refused reason answer
  simp only [validateTps, bind_eq_ok, pure_ok, Except.ok.injEq, raiseIf_eq_ok,
    offers .maxRecordSize (by decide), offers .initialMaxStreamsBidi (by decide),
    offers .initialMaxStreamsUni (by decide), offers .zmuxAckThreshold (by decide),
    offers .zmuxMaxAckDelay (by decide), offers .zmuxResume (by decide),
    requireAck_eq_ok valid distinct, validateTpPreamble_eq_ok valid distinct, ne_eq,
    tpDict_absent valid distinct, not_not, decide_eq_false_iff_not, not_lt, not_le]
  constructor
  · intro passed
    obtain ⟨_, -, size, -, bidi, -, uni, -, preamble, -, threshold, -, delay, -, lanes, -,
      resumed, -, least, -, short, -, positive, -⟩ := passed
    refine ⟨size, bidi, uni, preamble, ?_, least, short, positive, ?_⟩
    · intro name listed
      simp only [ackCompanions, List.mem_cons, List.not_mem_nil, or_false] at listed
      rcases listed with rfl | rfl | rfl
      · exact threshold
      · exact delay
      · exact lanes
    · intro there
      by_contra absent
      exact resumed ⟨there, absent⟩
  · intro rules
    rcases rules with ⟨size, bidi, uni, preamble, companions, least, short, positive, resumed⟩
    exact ⟨_, (), size, (), bidi, (), uni, (), preamble, (), companions _ (by decide), (),
      companions _ (by decide), (), companions _ (by decide), (),
      fun missing => missing.2 (resumed missing.1), (), least, (), short, (), positive, rfl⟩

end Values

/--
A block is accepted exactly when it consists of parameters that keep to the rules.

In every other case it is refused with the error of transport parameters.
-/
theorem decodeTps_accepts :
    (∀ block : Bytes, (∃ params, decodeTps block = .ok params) ↔
      ∃ tps : List SentTp, block = Tlv.block tps ∧ AcceptableTps tps) ∧
    (∀ block fault, decodeTps block = .error fault →
      ∃ reason, fault = .decodeError TPE reason) := by
  refine ⟨?_, ?_⟩
  · intro block
    simp only [decodeTps_sent]
    constructor
    · intro accepted
      rcases accepted with ⟨_, tps, rfl, valid, distinct, rfl, checked⟩
      exact ⟨tps, rfl, distinct, fun tp member => validTp_iff.mp (valid tp member),
        (validateTps_eq_ok valid distinct).mp checked⟩
    · intro acceptable
      rcases acceptable with ⟨tps, rfl, distinct, known, rules⟩
      have valid : ∀ tp ∈ tps, ValidTp tp := fun tp member => validTp_iff.mpr (known tp member)
      exact ⟨_, tps, rfl, valid, distinct, rfl, (validateTps_eq_ok valid distinct).mpr rules⟩
  · intro block fault failed
    exact decodeTps_faults block fault failed

end Zmux
