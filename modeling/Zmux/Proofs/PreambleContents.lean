import Zmux.Proofs.PreambleReading

/-! Which preambles are accepted, and what is read from them. -/

namespace Zmux

open Wire

/-- The types of the values that are understood: opening information, priority and pipe carrier. -/
def activeTlvs : List Nat := [0x01, 0x02, 0x05]

/-- A type whose values are delivered: in the range of applications, and not kept to be ignored. -/
def AppTlv (type : Nat) : Prop :=
  0x1000 ≤ type ∧ type ≤ 0x3FFF ∧ ¬ ∃ n, type = 0x1F * n + 0x21

/-- The check of the code finds exactly the types that are reserved to be ignored. -/
theorem isGreaseTlv_iff {type : Nat} : isGreaseTlv type ↔ ∃ n, type = greaseTlv n := by
  -- The form is a bound and a remainder.
  constructor
  · intro reserved
    rcases reserved with ⟨above, divides⟩
    exact ⟨(type - 0x21) / 0x1F, show type = 0x1F * ((type - 0x21) / 0x1F) + 0x21 by omega⟩
  · intro form
    rcases form with ⟨n, rfl⟩
    unfold isGreaseTlv greaseTlv
    omega

/-- An element of an application is in the range for them, and not reserved. -/
theorem appTlv_iff {type : Nat} :
    AppTlv type ↔ appTlvFirst ≤ type ∧ type ≤ appTlvLast ∧ ¬ isGreaseTlv type := by
  -- The range of the registry is the one stated.
  rw [isGreaseTlv_iff]
  rfl

instance (type : Nat) : Decidable (AppTlv type) := decidable_of_iff _ appTlv_iff.symm

/-- The priority that a single byte stands for. -/
def priorityOf (value : Bytes) : StreamPriority :=
  -- The three high bits are the urgency, and the next one is the flag.
  ⟨(value.headD 0).toNat >>> 5, hasBit (value.headD 0).toNat 0x10⟩

/-- A list that is left out when it has no elements. -/
def unlessEmpty {α : Type} : List α → Option (List α)
  | [] => none
  | list => some list

/-- What the values of a preamble say, each kind apart. -/
def preambleOf (tlvs : List (Nat × Bytes)) : Preamble where
  ignored := (tlvs.map Prod.fst).filter fun type => type ∉ activeTlvs ∧ ¬ AppTlv type
  priority := (tlvs.lookup 0x02).map priorityOf
  openInfo := tlvs.lookup 0x01
  pipeCarrier := 0x05 ∈ tlvs.map Prod.fst
  appTlvs := unlessEmpty (tlvs.filter fun tlv => AppTlv tlv.1)

/-- A value that its type allows. -/
structure FitsTlv (tlv : Nat × Bytes) : Prop where
  /-- A priority is one byte, whose low four bits are zero. -/
  priority : tlv.1 = 0x02 → ∃ byte : UInt8, tlv.2 = [byte] ∧ byte.toNat &&& 0x0F = 0
  /-- A pipe carrier is only a mark. -/
  pipeCarrier : tlv.1 = 0x05 → tlv.2 = []

/-- A priority is allowed as one byte, and nothing else is asked of it. -/
theorem fitsTlv_priority {value : Bytes} : FitsTlv (0x02, value) ↔
    ∃ byte : UInt8, value = [byte] ∧ byte.toNat &&& 0x0F = 0 := by
  constructor
  · intro fits
    exact fits.priority rfl
  · intro single
    refine ⟨fun _ => single, ?_⟩
    intro carrier
    exact absurd carrier (show (0x02 : Nat) ≠ 0x05 by decide)

/-- A pipe carrier is allowed without a value, and nothing else is asked of it. -/
theorem fitsTlv_pipeCarrier {value : Bytes} : FitsTlv (0x05, value) ↔ value = [] := by
  constructor
  · intro fits
    exact fits.pipeCarrier rfl
  · intro empty
    refine ⟨?_, fun _ => empty⟩
    intro priority
    exact absurd priority (show (0x05 : Nat) ≠ 0x02 by decide)

/-- Nothing is asked of a value of any other type. -/
theorem fitsTlv_other {type : Nat} {value : Bytes} (priority : type ≠ 0x02)
    (carrier : type ≠ 0x05) : FitsTlv (type, value) := by
  constructor
  · intro same
    exact absurd same priority
  · intro same
    exact absurd same carrier

/-- Values that are allowed, with at most one of each type that is understood. -/
structure AcceptableTlvs (tlvs : List (Nat × Bytes)) : Prop where
  once : ∀ type ∈ activeTlvs, (tlvs.map Prod.fst).count type ≤ 1
  fits : ∀ tlv ∈ tlvs, FitsTlv tlv

/-- What one more value adds to a preamble. -/
def Preamble.add (parsed : Preamble) (tlv : Nat × Bytes) : Preamble :=
  if tlv.1 = 0x01 then { parsed with openInfo := some tlv.2 }
  else if tlv.1 = 0x02 then { parsed with priority := some (priorityOf tlv.2) }
  else if tlv.1 = 0x05 then { parsed with pipeCarrier := true }
  else if AppTlv tlv.1 then { parsed with appTlvs := some (parsed.appTlvs.getD [] ++ [tlv]) }
  else { parsed with ignored := parsed.ignored ++ [tlv.1] }

/-- The table has a row in use for the types that are understood, and for no other. -/
theorem knownTlv_cases (type : Nat) :
    (type = 0x01 ∧ knownTlv type = some ⟨.openInfo, 0x01, .active⟩) ∨
    (type = 0x02 ∧ knownTlv type = some ⟨.priority, 0x02, .active⟩) ∨
    (type = 0x05 ∧ knownTlv type = some ⟨.pipeCarrier, 0x05, .active⟩) ∨
    (type ∉ activeTlvs ∧ knownTlv type = none) := by
  -- The rows in use are compared with the type one after the other.
  have rows : (preambleTlvs.filter fun row => row.status = .active) = [⟨.openInfo, 0x01, .active⟩,
      ⟨.priority, 0x02, .active⟩, ⟨.pipeCarrier, 0x05, .active⟩] := by decide
  by_cases info : type = 0x01
  · exact .inl ⟨info, by rw [info]; rfl⟩
  by_cases priority : type = 0x02
  · exact .inr (.inl ⟨priority, by rw [priority]; rfl⟩)
  by_cases carrier : type = 0x05
  · exact .inr (.inr (.inl ⟨carrier, by rw [carrier]; rfl⟩))
  · refine .inr (.inr (.inr ⟨by simp [activeTlvs, info, priority, carrier], ?_⟩))
    rw [knownTlv, rows]
    simp [eq_comm, info, priority, carrier]

variable {parsed after : Preamble} {seen known : List Nat} {tlv : Nat × Bytes}
  {tlvs : List (Nat × Bytes)}

/-- One value is taken in if its type allows it and it is not a second one, and it adds itself. -/
theorem acceptPair_eq_ok : acceptPair (parsed, seen) tlv = .ok (after, known) ↔
    FitsTlv tlv ∧ (tlv.1 ∈ activeTlvs → tlv.1 ∉ seen) ∧ after = parsed.add tlv ∧
    known = if tlv.1 ∈ activeTlvs then tlv.1 :: seen else seen := by
  -- The cases follow the table of types, one row at a time.
  rcases tlv with ⟨type, value⟩
  rcases knownTlv_cases type with ⟨rfl, row⟩ | ⟨rfl, row⟩ | ⟨rfl, row⟩ | ⟨other, row⟩
  · -- Opening information may be any bytes.
    have active : 0x01 ∈ activeTlvs := by decide
    have fits : FitsTlv (0x01, value) := fitsTlv_other (by decide) (by decide)
    simp only [acceptPair, acceptTlv, row, bind_eq_ok, raiseIf_eq_ok, pure_ok, Except.ok.injEq,
      Prod.mk.injEq, exists_const, Preamble.add, active, if_true, forall_const, fits, true_and,
      @eq_comm _ after, @eq_comm _ known]
  · -- A priority is looked into only when it is a single byte.
    have active : 0x02 ∈ activeTlvs := by decide
    have other : (0x02 : Nat) ≠ 0x01 := by decide
    simp only [acceptPair, acceptTlv, row, bind_eq_ok, raiseIf_eq_ok, pure_ok, Except.ok.injEq,
      Prod.mk.injEq, exists_const, Preamble.add, active, if_true, if_neg other, forall_const,
      fitsTlv_priority]
    constructor
    · intro taken
      rcases taken with ⟨new, single, byte, found, low, rfl, rfl⟩
      obtain ⟨first, rfl⟩ := List.length_eq_one_iff.mp (Decidable.not_not.mp single)
      cases found
      refine ⟨⟨byte, rfl, ?_⟩, new, rfl, rfl⟩
      simpa [hasBit] using low
    · intro allowed
      rcases allowed with ⟨⟨byte, rfl, low⟩, new, rfl, rfl⟩
      refine ⟨new, by simp, byte, rfl, ?_, rfl, rfl⟩
      simp [hasBit, low]
  · -- A mark has no value.
    have active : 0x05 ∈ activeTlvs := by decide
    have others : (0x05 : Nat) ≠ 0x01 ∧ (0x05 : Nat) ≠ 0x02 := by decide
    simp only [acceptPair, acceptTlv, row, bind_eq_ok, raiseIf_eq_ok, pure_ok, Except.ok.injEq,
      Prod.mk.injEq, exists_const, Preamble.add, active, if_true, if_neg others.1, if_neg others.2,
      forall_const, fitsTlv_pipeCarrier, ← List.length_eq_zero_iff, Decidable.not_not,
      @eq_comm _ after, @eq_comm _ known, and_left_comm, ne_eq]
  · -- No other value is looked into, so it is delivered or ignored.
    simp only [activeTlvs, List.mem_cons, List.not_mem_nil, or_false, not_or] at other
    rcases other with ⟨info, priority, carrier⟩
    have fits : FitsTlv (type, value) := fitsTlv_other priority carrier
    simp only [acceptPair, acceptTlv, row, Preamble.add, activeTlvs, List.mem_cons,
      List.not_mem_nil, or_false, info, priority, carrier, if_false, fits, true_and, false_implies,
      appTlv_iff]
    split <;> simp only [Except.ok.injEq, Prod.mk.injEq, @eq_comm _ after, @eq_comm _ known]

/-- One more value keeps values acceptable if it is allowed and no second one of its type. -/
theorem acceptableTlvs_append : AcceptableTlvs (tlvs ++ [tlv]) ↔ AcceptableTlvs tlvs ∧
    FitsTlv tlv ∧ (tlv.1 ∈ activeTlvs → tlv.1 ∉ tlvs.map Prod.fst) := by
  -- The last value adds one to the count of its own type.
  have counted : ∀ type, ((tlvs ++ [tlv]).map Prod.fst).count type =
      (tlvs.map Prod.fst).count type + if tlv.1 = type then 1 else 0 := by
    intro type
    rw [List.map_append, List.count_append, List.map_singleton, List.count_singleton]
    simp only [beq_iff_eq]
  constructor
  · intro acceptable
    rcases acceptable with ⟨once, fits⟩
    refine ⟨⟨fun type active => ?_, fun other member => fits other (List.mem_append_left _ member)⟩,
      fits tlv (by simp), ?_⟩
    · have bound := once type active
      rw [counted] at bound
      omega
    · intro active member
      have bound := once tlv.1 active
      rw [counted, if_pos rfl] at bound
      have listed := List.count_pos_iff.mpr member
      omega
  · intro acceptable
    rcases acceptable with ⟨⟨once, fits⟩, last, fresh⟩
    constructor
    · intro type active
      rw [counted]
      by_cases same : tlv.1 = type
      · -- A type that is new has not been counted yet.
        subst same
        rw [List.count_eq_zero_of_not_mem (fresh active), if_pos rfl]
      · rw [if_neg same]
        exact once type active
    · intro other member
      rcases List.mem_append.mp member with earlier | late
      · exact fits other earlier
      · rw [List.mem_singleton.mp late]
        exact last

/-- A list that is left out is taken up again with its first element. -/
theorem unlessEmpty_append {α : Type} (list : List α) (last : α) :
    unlessEmpty (list ++ [last]) = some ((unlessEmpty list).getD [] ++ [last]) := by
  -- A list with a last element is not empty.
  cases list <;> rfl

/-- A value that is appended is found under its own key, unless an earlier one is. -/
theorem lookup_append_singleton (tlvs : List (Nat × Bytes)) (key type : Nat) (value : Bytes) :
    (tlvs ++ [(type, value)]).lookup key =
      (tlvs.lookup key).or (if key = type then some value else none) := by
  -- The value at the end is looked at when all the others are passed.
  rw [List.lookup_append, List.lookup_cons, List.lookup_nil]
  by_cases same : key = type
  · simp [same]
  · have other : (key == type) = false := beq_eq_false_iff_ne.mpr same
    simp only [other, if_neg same]

/-- What a preamble says grows by what its last value adds. -/
theorem preambleOf_append (fresh : tlv.1 ∈ activeTlvs → tlv.1 ∉ tlvs.map Prod.fst) :
    preambleOf (tlvs ++ [tlv]) = (preambleOf tlvs).add tlv := by
  -- The cases are the types that are understood, and then all the others.
  rcases tlv with ⟨type, value⟩
  have unseen : type ∈ activeTlvs → tlvs.lookup type = none := by
    intro active
    rw [List.lookup_eq_none_iff]
    intro other member
    rw [bne_iff_ne]
    intro same
    exact fresh active (List.mem_map.mpr ⟨other, member, same.symm⟩)
  simp only [preambleOf, lookup_append_singleton, List.map_append, List.filter_append,
    List.map_singleton, List.mem_append, List.mem_singleton]
  by_cases info : type = 0x01
  · subst info
    have active : 0x01 ∈ activeTlvs := by decide
    have undelivered : ¬ AppTlv 0x01 := by decide
    simp [Preamble.add, unseen active, active, undelivered]
  by_cases priority : type = 0x02
  · subst priority
    have active : 0x02 ∈ activeTlvs := by decide
    have undelivered : ¬ AppTlv 0x02 := by decide
    simp [Preamble.add, unseen active, active, undelivered]
  by_cases carrier : type = 0x05
  · subst carrier
    have active : 0x05 ∈ activeTlvs := by decide
    have undelivered : ¬ AppTlv 0x05 := by decide
    simp [Preamble.add, active, undelivered]
  -- The type is not one that is understood, so its value is delivered or ignored.
  have inactive : type ∉ activeTlvs := by simp [activeTlvs, info, priority, carrier]
  by_cases app : AppTlv type
  · simp [Preamble.add, info, priority, carrier, inactive, app, eq_comm, unlessEmpty_append]
  · simp [Preamble.add, info, priority, carrier, inactive, app, eq_comm]

/-- The values of a preamble are taken in if they are acceptable, and give what they say. -/
theorem foldlM_acceptPair : tlvs.foldlM acceptPair (.fresh, []) = .ok (parsed, known) ↔
    AcceptableTlvs tlvs ∧ parsed = preambleOf tlvs ∧
    known = ((tlvs.map Prod.fst).filter fun type => type ∈ activeTlvs).reverse := by
  -- The induction is on the last value, which is taken in after all the others.
  induction tlvs using List.reverseRecOn generalizing parsed known with
  | nil =>
    have nothing : AcceptableTlvs [] := ⟨by simp, by simp⟩
    have begun : preambleOf [] = .fresh := rfl
    simp only [List.foldlM_nil, pure_ok, Except.ok.injEq, Prod.mk.injEq, nothing, begun, true_and,
      List.map_nil, List.filter_nil, List.reverse_nil, @eq_comm _ parsed, @eq_comm _ known]
  | append_singleton tlvs tlv ih =>
    have seen : tlv.1 ∈ activeTlvs → (tlv.1 ∈ ((tlvs.map Prod.fst).filter fun type =>
        type ∈ activeTlvs).reverse ↔ tlv.1 ∈ tlvs.map Prod.fst) := by
      intro active
      rw [List.mem_reverse, List.mem_filter, decide_eq_true_eq, and_iff_left active]
    have more : ((tlvs ++ [tlv]).map Prod.fst).filter (fun type => type ∈ activeTlvs) =
        (tlvs.map Prod.fst).filter (fun type => type ∈ activeTlvs) ++
          if tlv.1 ∈ activeTlvs then [tlv.1] else [] := by
      rw [List.map_append, List.filter_append, List.map_singleton]
      by_cases active : tlv.1 ∈ activeTlvs <;> simp [active]
    rw [List.foldlM_append, acceptableTlvs_append]
    simp only [List.foldlM_cons, List.foldlM_nil, bind_pure, bind_eq_ok, Prod.exists, ih,
      acceptPair_eq_ok]
    constructor
    · intro taken
      rcases taken with ⟨state, types, ⟨acceptable, rfl, rfl⟩, fits, fresh, rfl, rfl⟩
      have new : tlv.1 ∈ activeTlvs → tlv.1 ∉ tlvs.map Prod.fst := by
        intro active member
        exact fresh active ((seen active).mpr member)
      refine ⟨⟨acceptable, fits, new⟩, (preambleOf_append new).symm, ?_⟩
      rw [more]
      split <;> simp
    · intro sent
      rcases sent with ⟨⟨acceptable, fits, new⟩, rfl, rfl⟩
      refine ⟨_, _, ⟨acceptable, rfl, rfl⟩, fits, ?_, preambleOf_append new, ?_⟩
      · intro active member
        exact new active ((seen active).mp member)
      · rw [more]
        split <;> simp

/-- The bytes that the values of a preamble take in their shortest form. -/
def tlvsLength : List (Nat × Bytes) → Nat
  | [] => 0
  | tlv :: tlvs =>
    varintShortest tlv.1 + varintShortest tlv.2.length + tlv.2.length + tlvsLength tlvs

/-- Values are written only if their types and lengths are in range. -/
theorem encodeTlvs_range {body : Bytes} (written : encodeTlvs tlvs = .ok body) :
    ∀ tlv ∈ tlvs, tlv.1 ≤ maxVarint ∧ tlv.2.length ≤ maxVarint := by
  -- The induction is on the values, and both integers of the first one have forms.
  induction tlvs generalizing body with
  | nil => simp
  | cons tlv tlvs ih =>
    rcases tlv with ⟨type, value⟩
    simp only [encodeTlvs, bind_eq_ok, encodeVarint_eq_ok] at written
    rcases written with ⟨_, ⟨small, -⟩, _, ⟨short, -⟩, _, others, -⟩
    exact List.forall_mem_cons.mpr ⟨⟨small, short⟩, ih others⟩

/-- Values in range are written as a block of them, in the shortest forms. -/
theorem encodeTlvs_sent
    (range : ∀ tlv ∈ tlvs, tlv.1 ≤ maxVarint ∧ tlv.2.length ≤ maxVarint) :
    ∃ sent : List SentTlv, encodeTlvs tlvs = .ok (Tlv.block sent) ∧ sent.map plainTlv = tlvs ∧
      (Tlv.block sent).length = tlvsLength tlvs := by
  -- The induction is on the values, which are written one by one.
  induction tlvs with
  | nil => exact ⟨[], rfl, rfl, rfl⟩
  | cons tlv tlvs ih =>
    rcases tlv with ⟨type, value⟩
    obtain ⟨⟨small, short⟩, others⟩ := List.forall_mem_cons.mp range
    obtain ⟨sent, written, same, long⟩ := ih others
    -- The first value is written in front of the block of the others.
    let first : SentTlv := ⟨type, value, varintShortest type, varintShortest value.length,
      legal_shortest_iff.mpr small, legal_shortest_iff.mpr short⟩
    refine ⟨first :: sent, ?_, ?_, ?_⟩
    · simp only [encodeTlvs, encodeVarint_shortest small, encodeVarint_shortest short, written,
        ok_bind, pure_ok, Tlv.block, Tlv.bytes, varintFormat, first, List.append_assoc]
    · rw [List.map_cons, same]
      rfl
    · rw [Tlv.block, List.length_append, long, Tlv.bytes_length]
      simp only [tlvsLength, first]
      omega

/-- An element is no longer than all of them. -/
theorem value_le_tlvsLength (member : tlv ∈ tlvs) : tlv.2.length ≤ tlvsLength tlvs := by
  -- The length of a value is one part of what is added up.
  induction tlvs with
  | nil => cases member
  | cons other tlvs ih =>
    rw [tlvsLength]
    rcases List.mem_cons.mp member with rfl | later
    · omega
    · have bound := ih later
      omega

/-- A preamble is written exactly when its types and its total length are in range. -/
theorem encodePreamble_iff : (∃ bytes, encodePreamble tlvs = .ok bytes) ↔
    (∀ tlv ∈ tlvs, tlv.1 ≤ maxVarint) ∧ tlvsLength tlvs ≤ maxVarint := by
  -- Types, lengths of values and the total length are the integers that are written.
  constructor
  · intro written
    rcases written with ⟨bytes, written⟩
    simp only [encodePreamble, bind_eq_ok, encodeVarint_eq_ok] at written
    rcases written with ⟨body, values, _, ⟨short, -⟩, -⟩
    have range := encodeTlvs_range values
    obtain ⟨sent, same, -, long⟩ := encodeTlvs_sent range
    rw [values, Except.ok.injEq] at same
    rw [same, long] at short
    exact ⟨fun tlv member => (range tlv member).1, short⟩
  · intro range
    rcases range with ⟨small, short⟩
    -- No value is longer than all of them together.
    have each : ∀ tlv ∈ tlvs, tlv.1 ≤ maxVarint ∧ tlv.2.length ≤ maxVarint :=
      fun tlv member => ⟨small tlv member, Nat.le_trans (value_le_tlvsLength member) short⟩
    obtain ⟨sent, values, -, long⟩ := encodeTlvs_sent each
    rw [← long] at short
    have size := encodeVarint_shortest short
    exact ⟨_, by rw [encodePreamble, values, ok_bind, size, ok_bind, pure_ok]⟩

/-- A written preamble is a length and a block of the values it was written from. -/
theorem encodePreamble_sent {bytes : Bytes} (written : encodePreamble tlvs = .ok bytes) :
    ∃ width, ∃ sent : List SentTlv, VarintLegal (Tlv.block sent).length width ∧
      bytes = varintForm (Tlv.block sent).length width ++ Tlv.block sent ∧
      sent.map plainTlv = tlvs := by
  -- What is written are a block of the values and its length.
  simp only [encodePreamble, bind_eq_ok, encodeVarint_eq_ok, pure_ok, Except.ok.injEq] at written
  rcases written with ⟨body, values, _, ⟨short, rfl⟩, rfl⟩
  obtain ⟨sent, same, plain, -⟩ := encodeTlvs_sent (encodeTlvs_range values)
  rw [values, Except.ok.injEq] at same
  subst same
  exact ⟨_, sent, legal_shortest_iff.mpr short, rfl, plain⟩

/-- What is read from a written preamble are the values that it was written from. -/
theorem decodePreamble_written {bytes : Bytes} (written : encodePreamble tlvs = .ok bytes)
    (data : Bytes) (limit : Int) {total : Nat} :
    decodePreamble (bytes ++ data) limit = .ok (parsed, total) ↔
      (bytes.length : Int) ≤ limit ∧ AcceptableTlvs tlvs ∧ total = bytes.length ∧
      parsed = preambleOf tlvs := by
  -- A written preamble is one that is sent, so the reading of preambles applies to it.
  obtain ⟨width, sent, legal, rfl, rfl⟩ := encodePreamble_sent written
  have total : (varintForm (Tlv.block sent).length width ++ Tlv.block sent).length =
      width + (Tlv.block sent).length := by
    rw [List.length_append, varintForm_length legal]
  rw [decodePreamble_eq_ok, total]
  constructor
  · intro read
    rcases read with ⟨other, others, rest, lawful, same, rfl, small, known, folded⟩
    -- The same bytes begin with one length only, and as many bytes behind it are one block only.
    rw [List.append_assoc] at same
    obtain ⟨long, rfl, behind⟩ := varintFormat.decodable legal lawful same
    have block := (List.append_inj behind long).1
    have equal := Tlv.block_injective varint_positive block
    subst equal
    obtain ⟨acceptable, parsed, -⟩ := foldlM_acceptPair.mp folded
    exact ⟨small, acceptable, rfl, parsed⟩
  · intro acceptable
    rcases acceptable with ⟨small, acceptable, rfl, rfl⟩
    exact ⟨width, sent, data, legal, by rw [List.append_assoc], rfl, small, _,
      foldlM_acceptPair.mpr ⟨acceptable, rfl, rfl⟩⟩

/--
Preambles round-trip, and are accepted by the rules for their values.

A preamble is written when its types and its length are in range.
Whatever follows it, it is read if it is within the limit and its values are acceptable, and refused as a protocol violation otherwise.
-/
theorem decodePreamble_encodePreamble (tlvs : List (Nat × Bytes)) :
    ((∃ bytes, encodePreamble tlvs = .ok bytes) ↔
      (∀ tlv ∈ tlvs, tlv.1 ≤ maxVarint) ∧ tlvsLength tlvs ≤ maxVarint) ∧
    ∀ bytes, encodePreamble tlvs = .ok bytes → ∀ (data : Bytes) (limit : Int),
      (∀ parsed total, decodePreamble (bytes ++ data) limit = .ok (parsed, total) ↔
        (bytes.length : Int) ≤ limit ∧ AcceptableTlvs tlvs ∧ total = bytes.length ∧
        parsed = preambleOf tlvs) ∧
      (¬ ((bytes.length : Int) ≤ limit ∧ AcceptableTlvs tlvs) →
        ∃ reason, decodePreamble (bytes ++ data) limit =
          .error (.decodeError .protocolViolation reason)) := by
  refine ⟨encodePreamble_iff, ?_⟩
  intro bytes written data limit
  refine ⟨fun parsed total => decodePreamble_written written data limit, ?_⟩
  intro refused
  cases read : decodePreamble (bytes ++ data) limit with
  | ok answer =>
    rcases (decodePreamble_written written data limit).mp read with ⟨small, acceptable, -⟩
    exact absurd ⟨small, acceptable⟩ refused
  | error fault =>
    obtain ⟨reason, rfl⟩ := decodePreamble_faults _ _ fault read
    exact ⟨reason, rfl⟩

end Zmux
