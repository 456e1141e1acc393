import Zmux.Proofs.FirstRecord
import Zmux.Wire.Verdict

/-! The check of the first bytes gives one verdict, early, and never takes it back. -/

namespace Zmux

open Wire

section Judge

variable {kinds : List (FirstBytes × Bytes)} {rest : Bytes}

/-- A judgement that is not to wait stays, whatever bytes follow. -/
theorem judge_stable (apart : Apart kinds) (decided : judge kinds rest ≠ .needMore)
    (more : Bytes) : judge kinds (rest ++ more) = judge kinds rest := by
  -- A judgement is a refusal or the name of a kind, and both are kept by more bytes.
  have longer : rest <+: rest ++ more := List.prefix_append _ _
  rcases judge_cases kinds rest with ⟨refused, none⟩ | ⟨kind, listed, whole, named⟩ | ⟨waits, -⟩
  · -- A kind that fits more bytes would fit the bytes that were refused.
    have still : ∀ kind ∈ kinds, ¬ (kind.2 <+: rest ++ more ∨ rest ++ more <+: kind.2) := by
      intro kind listed fits
      apply none kind listed
      rcases fits with front | front
      · exact List.prefix_or_prefix_of_prefix front longer
      · exact .inr (longer.trans front)
    rw [refused]
    rcases judge_cases kinds (rest ++ more) with ⟨again, -⟩ | ⟨kind, listed, whole, -⟩ |
      ⟨-, kind, listed, front⟩
    · exact again
    · exact absurd (.inl whole) (still kind listed)
    · exact absurd (.inr front) (still kind listed)
  · -- The bytes of the kind are there, and stay there.
    have bytes := whole.trans longer
    rw [named]
    exact (judge_fitting apart listed (.inl bytes)).2 bytes
  · exact absurd waits decided

/-- As many bytes as the longest of the kinds has are enough for a judgement. -/
theorem judge_early (apart : Apart kinds) (definite : ∀ kind ∈ kinds, kind.1 ≠ .needMore)
    (short : ∀ kind ∈ kinds, kind.2.length ≤ rest.length) : judge kinds rest ≠ .needMore := by
  intro waits
  -- The kind that is waited for has no bytes beyond those that are there.
  obtain ⟨kind, listed, front⟩ := judge_needMore definite waits
  have whole : rest = kind.2 := front.eq_of_length_le (short kind listed)
  have bytes : kind.2 <+: rest := whole ▸ List.prefix_rfl
  have named := (judge_fitting apart listed (.inl bytes)).2 bytes
  rw [waits] at named
  exact definite kind listed named.symm

end Judge

variable {acceptJoin acceptLane : Bool} {most : Nat}

/-- No candidate has more than eight bytes, and none is named for want of them. -/
theorem candidates_short {size : Nat} {kind : FirstBytes × Bytes}
    (listed : kind ∈ candidates size acceptJoin acceptLane most) :
    kind.1 ≠ .needMore ∧ kind.2.length ≤ 8 := by
  -- The labels are inspected one by one.
  rcases mem_candidates.mp listed with ⟨accepted, opening, -⟩
  have short : ∀ label ∈ [FirstBytes.session, .join, .lane, .reject, .needMore],
      label.opening.1.length ≤ 8 := by decide
  constructor
  · intro needs
    rw [needs] at accepted
    cases accepted
  · rw [opening]
    apply short
    cases kind.1 <;> simp

/-- The check of the first bytes always answers. -/
theorem classifyFirstBytes_total (start : Bytes) :
    ∃ verdict, classifyFirstBytes start acceptJoin acceptLane most = .ok verdict := by
  -- Bytes before the end of the size are awaited, and those behind it are judged.
  cases sized : decodeVarint start 0 FE with
  | error fault => exact ⟨_, classifyFirstBytes_unsized sized⟩
  | ok answer =>
    obtain ⟨legal, -, rest, rfl⟩ := decodeVarint_begin.mp sized
    exact ⟨_, classifyFirstBytes_sized legal⟩

/-- A verdict on the first bytes stays, whatever bytes follow. -/
theorem classifyFirstBytes_stable {start : Bytes} {verdict : FirstBytes}
    (given : classifyFirstBytes start acceptJoin acceptLane most = .ok verdict)
    (decided : verdict ≠ .needMore) (more : Bytes) :
    classifyFirstBytes (start ++ more) acceptJoin acceptLane most = .ok verdict := by
  -- Without the size there is no verdict yet.
  cases sized : decodeVarint start 0 FE with
  | error fault =>
    rw [classifyFirstBytes_unsized sized] at given
    cases given
    exact absurd rfl decided
  | ok answer =>
    -- The size is there already, so only the bytes behind it are more.
    obtain ⟨legal, -, rest, rfl⟩ := decodeVarint_begin.mp sized
    rw [classifyFirstBytes_sized legal, Except.ok.injEq] at given
    rw [List.append_assoc, classifyFirstBytes_sized legal]
    rw [← given] at decided ⊢
    rw [judge_stable (candidates_apart _) decided more]

/-- Eight bytes behind the size are enough for a verdict. -/
theorem classifyFirstBytes_early {start : Bytes} {size next width : Nat}
    (sized : decodeVarint start 0 = .ok (size, next, width)) (long : next + 8 ≤ start.length) :
    classifyFirstBytes start acceptJoin acceptLane most ≠ .ok .needMore := by
  -- No candidate has more than these eight bytes.
  obtain ⟨legal, rfl, rest, rfl⟩ := decodeVarint_begin.mp sized
  rw [List.length_append, varintForm_length legal] at long
  rw [classifyFirstBytes_sized legal, ne_eq, Except.ok.injEq]
  apply judge_early (candidates_apart _) (fun kind listed => (candidates_short listed).1)
  intro kind listed
  have short := (candidates_short listed).2
  omega

/-- Sixteen bytes are enough for a verdict. -/
theorem classifyFirstBytes_sixteen {start : Bytes} (long : 16 ≤ start.length) :
    classifyFirstBytes start acceptJoin acceptLane most ≠ .ok .needMore := by
  -- No size takes more than eight of them.
  cases sized : decodeVarint start 0 FE with
  | error fault =>
    have starved := (decodeVarint_eq_error.mp sized).2
    obtain ⟨first, others, rfl⟩ := List.exists_cons_of_length_pos (show 0 < start.length by omega)
    have few := starved first others rfl
    have widths := announcedWidth_cases first
    rw [List.length_cons] at long
    omega
  | ok answer =>
    obtain ⟨⟨widths, -⟩, -, -⟩ := decodeVarint_begin.mp sized
    have forward := (decodeVarint_begin.mp sized).2.1
    exact classifyFirstBytes_early sized (by omega)

/-- What the check has decided, which is nothing while it needs more bytes. -/
def decided : Except Failure FirstBytes → Option FirstBytes
  | .ok .needMore => none
  | .ok verdict => some verdict
  | .error _ => none

/-- A verdict is decided when it is not that more bytes are needed. -/
theorem decided_eq_some {outcome : Except Failure FirstBytes} {verdict : FirstBytes} :
    decided outcome = some verdict ↔ outcome = .ok verdict ∧ verdict ≠ .needMore := by
  -- Every answer but one is a verdict.
  cases outcome with
  | error fault => simp [decided]
  | ok answer => cases answer <;> cases verdict <;> simp [decided]

/-- The check of the first bytes, as a verdict on a carrier. -/
def carrierVerdict (acceptJoin acceptLane : Bool) (most : Nat) : Verdict FirstBytes where
  given start := decided (classifyFirstBytes start acceptJoin acceptLane most)
  bound := 16
  stable found more := by
    obtain ⟨given, definite⟩ := decided_eq_some.mp found
    exact decided_eq_some.mpr ⟨classifyFirstBytes_stable given definite more, definite⟩
  reached {start} long := by
    obtain ⟨verdict, given⟩ := @classifyFirstBytes_total acceptJoin acceptLane most start
    refine ⟨verdict, decided_eq_some.mpr ⟨given, ?_⟩⟩
    intro needs
    rw [needs] at given
    exact classifyFirstBytes_sixteen long given

/-- Fed byte by byte, a carrier is decided at the first byte that decides it. -/
theorem decidedFrom_eq {carrier : Bytes} (long : 16 ≤ carrier.length) {i : Nat} (early : i ≤ 16)
    (waited : ∀ count < i,
      classifyFirstBytes (carrier.take count) acceptJoin acceptLane most = .ok .needMore) :
    ∃ count verdict, decidedFrom carrier acceptJoin acceptLane most i = .ok (count, verdict) ∧
      count ≤ 16 ∧ verdict ≠ .needMore ∧
      classifyFirstBytes (carrier.take count) acceptJoin acceptLane most = .ok verdict ∧
      ∀ fewer < count,
        classifyFirstBytes (carrier.take fewer) acceptJoin acceptLane most = .ok .needMore := by
  -- The induction is on the bytes that are left until there are sixteen.
  induction left : 16 - i generalizing i with
  | zero =>
    -- With sixteen bytes the loop breaks.
    have full : 16 ≤ (carrier.take i).length := by
      rw [List.length_take]
      omega
    obtain ⟨verdict, given⟩ := @classifyFirstBytes_total acceptJoin acceptLane most (carrier.take i)
    have definite : verdict ≠ .needMore := by
      intro needs
      rw [needs] at given
      exact classifyFirstBytes_sixteen full given
    refine ⟨i, verdict, ?_, early, definite, given, waited⟩
    rw [decidedFrom, given, ok_bind, if_neg (fun both => definite both.1), pure_ok]
  | succ left ih =>
    obtain ⟨verdict, given⟩ := @classifyFirstBytes_total acceptJoin acceptLane most (carrier.take i)
    by_cases needs : verdict = .needMore
    · -- One more byte is taken, and all fewer ones have been too few.
      rw [needs] at given
      rw [decidedFrom, given, ok_bind, if_pos ⟨rfl, by omega⟩]
      refine ih (show i + 1 ≤ 16 by omega) ?_ (by omega)
      intro count below
      rcases Nat.lt_succ_iff_lt_or_eq.mp below with fewer | rfl
      · exact waited count fewer
      · exact given
    · refine ⟨i, verdict, ?_, early, needs, given, waited⟩
      rw [decidedFrom, given, ok_bind, if_neg (fun both => needs both.1), pure_ok]

/--
The verdict on the first bytes of a carrier is final and comes early.

The check always answers, a verdict stays whatever bytes follow, and it is there with eight bytes behind the size.
So a listener fed in any chunks reaches the one verdict on all the bytes, with sixteen of them at the latest.
-/
theorem classifyFirstBytes_final (acceptJoin acceptLane : Bool) (most : Nat) :
    (∀ start, ∃ verdict, classifyFirstBytes start acceptJoin acceptLane most = .ok verdict) ∧
    (∀ start more verdict, verdict ≠ .needMore →
      classifyFirstBytes start acceptJoin acceptLane most = .ok verdict →
      classifyFirstBytes (start ++ more) acceptJoin acceptLane most = .ok verdict) ∧
    (∀ start size next width, decodeVarint start 0 = .ok (size, next, width) →
      next + 8 ≤ start.length →
      classifyFirstBytes start acceptJoin acceptLane most ≠ .ok .needMore) ∧
    (∀ chunks verdict,
      (carrierVerdict acceptJoin acceptLane most).listen chunks = some verdict ↔
        classifyFirstBytes chunks.flatten acceptJoin acceptLane most = .ok verdict ∧
        verdict ≠ .needMore) ∧
    (∀ early later verdict,
      (carrierVerdict acceptJoin acceptLane most).listen early = some verdict →
      (carrierVerdict acceptJoin acceptLane most).listen (early ++ later) = some verdict) ∧
    (∀ chunks, 16 ≤ chunks.flatten.length → ∃ verdict,
      (carrierVerdict acceptJoin acceptLane most).listen chunks = some verdict ∧
      classifyFirstBytes (chunks.flatten.take 16) acceptJoin acceptLane most = .ok verdict) ∧
    (∀ carrier, 16 ≤ carrier.length → ∃ count verdict,
      decidedAt carrier acceptJoin acceptLane most = .ok (count, verdict) ∧ count ≤ 16 ∧
      verdict ≠ .needMore ∧
      classifyFirstBytes carrier acceptJoin acceptLane most = .ok verdict ∧
      ∀ fewer < count,
        classifyFirstBytes (carrier.take fewer) acceptJoin acceptLane most = .ok .needMore) := by
  refine ⟨classifyFirstBytes_total, ?_, ?_, ?_, ?_, ?_, ?_⟩
  · intro start more verdict definite given
    exact classifyFirstBytes_stable given definite more
  · intro start size next width sized long
    exact classifyFirstBytes_early sized long
  · intro chunks verdict
    rw [Verdict.listen_eq]
    exact decided_eq_some
  · intro early later verdict heard
    exact Verdict.listen_stable heard later
  · intro chunks long
    -- The verdict on sixteen bytes is the one on all of them.
    obtain ⟨verdict, given⟩ := (carrierVerdict acceptJoin acceptLane most).reached long
    have front := @Verdict.given_take _ (carrierVerdict acceptJoin acceptLane most) _ long
    rw [given] at front
    refine ⟨verdict, ?_, (decided_eq_some.mp front).1⟩
    rw [Verdict.listen_eq, given]
  · intro carrier long
    have nothing : ∀ count < 1,
        classifyFirstBytes (carrier.take count) acceptJoin acceptLane most = .ok .needMore := by
      intro count none
      rw [Nat.lt_one_iff.mp none]
      rfl
    obtain ⟨count, verdict, found, few, definite, given, waited⟩ :=
      decidedFrom_eq long (show 1 ≤ 16 by decide) nothing
    have whole := classifyFirstBytes_stable given definite (carrier.drop count)
    rw [List.take_append_drop] at whole
    exact ⟨count, verdict, found, few, definite, whole, waited⟩

end Zmux
