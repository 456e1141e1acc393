import Mathlib.Data.List.Infix
import Zmux.Codec.Registry

/-! The aliases of protocols: which two names are given one and the same. -/

namespace Zmux

section Aliases

variable {identifier first second former : String}

/-- A text begins with another when it is that one with something behind it. -/
theorem isPrefix_toList {front whole : String} :
    front.toList <+: whole.toList ↔ ∃ x, whole = front ++ x := by
  constructor
  · rintro ⟨rest, split⟩
    refine ⟨String.ofList rest, ?_⟩
    rw [← String.toList_inj, String.toList_append, String.toList_ofList, split]
  · rintro ⟨x, rfl⟩
    rw [String.toList_append]
    exact List.prefix_append _ _

/-- A text ends with another when something stands in front of it. -/
theorem isSuffix_toList {back whole : String} :
    back.toList <:+ whole.toList ↔ ∃ y, whole = y ++ back := by
  constructor
  · rintro ⟨rest, split⟩
    refine ⟨String.ofList rest, ?_⟩
    rw [← String.toList_inj, String.toList_append, String.toList_ofList, split]
  · rintro ⟨y, rfl⟩
    rw [String.toList_append]
    exact List.suffix_append _ _

/-- An alias is that of an application of the session, or that of another protocol with its version. -/
theorem alpnAlias_eq_some : alpnAlias identifier = some former ↔
    (∃ x, identifier = "qmux-02." ++ x ∧ former = "qmux-01." ++ x) ∨
      ∃ y, identifier = y ++ "-02" ∧ former = y ++ "-01" ∧
        ¬ "qmux-02.".toList <+: identifier.toList := by
  -- The name of the session is one with a version too, since nothing stands behind it.
  have other : alpnAlias identifier = if "qmux-02.".toList <+: identifier.toList then
        some ("qmux-01." ++ String.ofList (identifier.toList.drop "qmux-02.".length))
      else if "-02".toList <:+ identifier.toList then
        some (String.ofList (identifier.toList.take (identifier.length - 3)) ++ "-01")
      else none := by
    by_cases session : identifier = "qmux-02"
    · subst session
      rfl
    · rw [alpnAlias, if_neg session]
  rw [other]
  by_cases application : "qmux-02.".toList <+: identifier.toList
  · rw [if_pos application]
    obtain ⟨x, rfl⟩ := isPrefix_toList.mp application
    have behind : ("qmux-02." ++ x).toList.drop "qmux-02.".length = x.toList := by
      rw [String.toList_append]
      exact List.drop_left
    rw [behind, String.ofList_toList, Option.some.injEq]
    constructor
    · intro same
      exact .inl ⟨x, rfl, same.symm⟩
    · rintro (⟨z, split, rfl⟩ | ⟨y, -, -, absent⟩)
      · rw [String.append_right_inj] at split
        rw [split]
      · exact absurd application absent
  · rw [if_neg application]
    have absent : ¬ ∃ x, identifier = "qmux-02." ++ x ∧ former = "qmux-01." ++ x :=
      fun ⟨x, split, _⟩ => application (isPrefix_toList.mpr ⟨x, split⟩)
    rw [or_iff_right absent]
    by_cases version : "-02".toList <:+ identifier.toList
    · rw [if_pos version]
      obtain ⟨y, rfl⟩ := isSuffix_toList.mp version
      have front : (y ++ "-02").toList.take ((y ++ "-02").length - 3) = y.toList := by
        have three : "-02".length = 3 := by decide
        rw [String.length_append, three, Nat.add_sub_cancel, String.toList_append,
          ← String.length_toList]
        exact List.take_left
      rw [front, String.ofList_toList, Option.some.injEq]
      constructor
      · intro same
        exact ⟨y, rfl, same.symm, application⟩
      · rintro ⟨z, split, rfl, -⟩
        rw [String.append_left_inj] at split
        rw [split]
    · rw [if_neg version]
      constructor
      · intro none
        cases none
      · rintro ⟨y, split, -⟩
        exact absurd (isSuffix_toList.mpr ⟨y, split⟩) version

/-- A text that ends with the former version and begins with the former session does both one behind the other. -/
theorem former_overlap {x y : String} :
    "qmux-01." ++ x = y ++ "-01" ↔ ∃ z, y = "qmux-01." ++ z ∧ x = z ++ "-01" := by
  constructor
  · intro same
    rw [← String.toList_inj, String.toList_append, String.toList_append,
      List.append_eq_append_iff] at same
    -- One of the two parts reaches into the other, by what they have in common.
    rcases same with ⟨z, back, front⟩ | ⟨z, front, back⟩
    · refine ⟨String.ofList z, String.toList_inj.mp ?_, String.toList_inj.mp ?_⟩
      · rw [String.toList_append, @String.toList_ofList z]
        exact back
      · rw [String.toList_append, @String.toList_ofList z]
        exact front
    · -- What both have in common is empty, since the session ends with a dot.
      have common : ∀ z ∈ "-01".toList.inits, z <:+ "qmux-01.".toList → z = [] := by decide
      obtain rfl : z = [] := common z ((List.mem_inits _ _).mpr ⟨_, back.symm⟩) ⟨_, front.symm⟩
      rw [List.append_nil] at front
      rw [List.nil_append] at back
      refine ⟨"", String.toList_inj.mp front.symm, String.toList_inj.mp back.symm⟩
  · rintro ⟨z, rfl, rfl⟩
    rw [String.append_assoc]

/-- The former session is not the one in use. -/
theorem former_plain (x : String) : ¬ "qmux-02.".toList <+: ("qmux-01." ++ x).toList := by
  rintro ⟨rest, split⟩
  rw [String.toList_append] at split
  -- Both names are as long as each other, so one of them would be the other.
  have long : "qmux-02.".toList.length = "qmux-01.".toList.length := by decide
  have apart : "qmux-02.".toList ≠ "qmux-01.".toList := by decide
  exact apart (List.append_inj_left split long)

/-- The name of an application of the former session has that of the one in use only for another version. -/
theorem shared_of_forms {x y : String} (same : "qmux-01." ++ x = y ++ "-01") :
    ∃ z, "qmux-02." ++ x = "qmux-02." ++ z ++ "-01" ∧ y ++ "-02" = "qmux-01." ++ z ++ "-02" := by
  obtain ⟨z, rfl, rfl⟩ := former_overlap.mp same
  exact ⟨z, by rw [String.append_assoc], rfl⟩

/-- Two names share an alias only if one has the former session and the other one the former version. -/
theorem alpnAlias_shared (first second : String) (different : first ≠ second) :
    (∃ former, alpnAlias first = some former ∧ alpnAlias second = some former) ↔
      ∃ z, (first = "qmux-02." ++ z ++ "-01" ∧ second = "qmux-01." ++ z ++ "-02") ∨
        (first = "qmux-01." ++ z ++ "-02" ∧ second = "qmux-02." ++ z ++ "-01") := by
  constructor
  · rintro ⟨former, found, again⟩
    rw [alpnAlias_eq_some] at found again
    -- Each alias is that of a session or that of a version, and two of one kind are equal.
    rcases found with ⟨x, rfl, named⟩ | ⟨y, rfl, named, -⟩
    · rcases again with ⟨x', rfl, renamed⟩ | ⟨y', rfl, renamed, -⟩
      · rw [named, String.append_right_inj] at renamed
        exact absurd (congrArg _ renamed) different
      · obtain ⟨z, application, version⟩ := shared_of_forms (named.symm.trans renamed)
        exact ⟨z, .inl ⟨application, version⟩⟩
    · rcases again with ⟨x', rfl, renamed⟩ | ⟨y', rfl, renamed, -⟩
      · obtain ⟨z, application, version⟩ := shared_of_forms (renamed.symm.trans named)
        exact ⟨z, .inr ⟨version, application⟩⟩
      · rw [named, String.append_left_inj] at renamed
        exact absurd (congrArg (· ++ "-02") renamed) different
  · -- Both identifiers are brought to the former session and the former version.
    have aliases : ∀ z, alpnAlias ("qmux-02." ++ z ++ "-01") = some ("qmux-01." ++ z ++ "-01") ∧
        alpnAlias ("qmux-01." ++ z ++ "-02") = some ("qmux-01." ++ z ++ "-01") := by
      intro z
      rw [alpnAlias_eq_some, alpnAlias_eq_some]
      refine ⟨.inl ⟨z ++ "-01", String.append_assoc, String.append_assoc⟩,
        .inr ⟨"qmux-01." ++ z, rfl, rfl, ?_⟩⟩
      rw [String.append_assoc]
      exact former_plain _
    rintro ⟨z, ⟨rfl, rfl⟩ | ⟨rfl, rfl⟩⟩
    · exact ⟨_, aliases z⟩
    · exact ⟨_, (aliases z).symm⟩

/-- Two identifiers of a draft that share their alias. -/
theorem alpnAlias_shared_draft :
    ∃ former, alpnAlias "qmux-02.app-01" = some former ∧ alpnAlias "qmux-01.app-02" = some former :=
  (alpnAlias_shared "qmux-02.app-01" "qmux-01.app-02" (by decide)).mpr
    ⟨"app", .inl ⟨by decide, by decide⟩⟩

end Aliases

end Zmux
