import Mathlib.Data.List.Nodup
import Zmux.Wire.Bytes

/-! Regions between marks: however often they are filled, they hold what they were filled with last. -/

namespace Wire

variable {τ κ : Type} {kind : τ → Option (κ × Bool)}

/-- What goes into the regions of a key: the token that opens them, and plain ones behind it. -/
structure Filling (kind : τ → Option (κ × Bool)) where
  key : κ
  opening : τ
  inner : List τ
  opens : kind opening = some (key, true)
  plain : ∀ t ∈ inner, kind t = none

section Fill

variable [DecidableEq κ]

/-- The next token that closes a region of a key, and what is behind it. -/
def closing (kind : τ → Option (κ × Bool)) (key : κ) : List τ → Option (τ × List τ)
  | [] => none
  | t :: ts => if kind t = some (key, false) then some (t, ts) else closing kind key ts

variable {key : κ} {ts rest inner : List τ} {t c : τ} {f g : Filling kind}

/-- The token that closes is the first one, with none like it in front. -/
theorem closing_eq_some : closing kind key ts = some (c, rest) ↔
    ∃ inner, ts = inner ++ c :: rest ∧ kind c = some (key, false) ∧
      ∀ t ∈ inner, kind t ≠ some (key, false) := by
  -- The induction is on the tokens, the first of which closes or not.
  induction ts with
  | nil => simp [closing]
  | cons t ts ih =>
    rw [closing]
    split
    · rename_i closes
      constructor
      · rintro ⟨⟩
        exact ⟨[], rfl, closes, by simp⟩
      · rintro ⟨inner, split, -, others⟩
        cases inner with
        | nil =>
          cases split
          rfl
        | cons first inner =>
          cases split
          exact absurd closes (others t List.mem_cons_self)
    · rename_i other
      rw [ih]
      constructor
      · rintro ⟨inner, rfl, closes, others⟩
        exact ⟨t :: inner, rfl, closes, List.forall_mem_cons.mpr ⟨other, others⟩⟩
      · rintro ⟨inner, split, closes, others⟩
        cases inner with
        | nil =>
          cases split
          exact absurd closes other
        | cons first inner =>
          cases split
          exact ⟨inner, rfl, closes, (List.forall_mem_cons.mp others).2⟩

/-- No token closes when none is found. -/
theorem closing_eq_none : closing kind key ts = none ↔ ∀ t ∈ ts, kind t ≠ some (key, false) := by
  -- The induction is on the tokens.
  induction ts with
  | nil => simp [closing]
  | cons t ts ih =>
    rw [closing, List.forall_mem_cons]
    split
    · rename_i closes
      simp [closes]
    · rename_i other
      rw [ih]
      simp [other]

/-- What is behind the token that closes is shorter. -/
theorem closing_length (found : closing kind key ts = some (c, rest)) : rest.length < ts.length := by
  obtain ⟨inner, rfl, -⟩ := closing_eq_some.mp found
  rw [List.length_append, List.length_cons]
  omega

/-- There is a mark that opens a region of a key, and behind it one that closes it. -/
def HasRegion (kind : τ → Option (κ × Bool)) (key : κ) : List τ → Prop
  | [] => False
  | t :: ts => (kind t = some (key, true) ∧ closing kind key ts ≠ none) ∨ HasRegion kind key ts

/-- Fill every region of a key, from the first to the last. -/
def fill (f : Filling kind) : List τ → List τ
  | [] => []
  | t :: ts =>
    if kind t = some (f.key, true) then
      match found : closing kind f.key ts with
      | some (c, rest) =>
        have _shorter := closing_length found
        f.opening :: f.inner ++ c :: fill f rest
      | none => t :: fill f ts
    else t :: fill f ts
termination_by ts => ts.length
decreasing_by all_goals simp_all <;> omega

/-- There is nothing to fill in nothing. -/
theorem fill_nil : fill f [] = [] := by rw [fill]

/-- A token that opens no region of the key is kept. -/
theorem fill_other (other : kind t ≠ some (f.key, true)) : fill f (t :: ts) = t :: fill f ts := by
  rw [fill, if_neg other]

/-- Tokens that open no region of the key are kept. -/
theorem fill_plain (plain : ∀ t ∈ inner, kind t ≠ some (f.key, true)) :
    fill f (inner ++ ts) = inner ++ fill f ts := by
  -- The induction is on the tokens, each of which is kept.
  induction inner with
  | nil => rfl
  | cons t inner ih =>
    rw [List.forall_mem_cons] at plain
    rw [List.cons_append, fill_other plain.1, ih plain.2, List.cons_append]

/-- What is between the mark that opens a region and the next one that closes it is replaced. -/
theorem fill_region (opens : kind t = some (f.key, true)) (closes : kind c = some (f.key, false))
    (others : ∀ t ∈ inner, kind t ≠ some (f.key, false)) :
    fill f (t :: (inner ++ c :: rest)) = f.opening :: f.inner ++ c :: fill f rest := by
  -- The first token that closes is the one behind the inner ones.
  have found : closing kind f.key (inner ++ c :: rest) = some (c, rest) :=
    closing_eq_some.mpr ⟨inner, rfl, closes, others⟩
  rw [fill, if_pos opens]
  split
  · rename_i found'
    rw [found] at found'
    cases found'
    rfl
  · rename_i none
    rw [found] at none
    cases none

/-- Nothing is filled where no region is closed. -/
theorem fill_unclosed (unclosed : ∀ t ∈ ts, kind t ≠ some (f.key, false)) : fill f ts = ts := by
  -- The induction is on the tokens, none of which closes what is opened.
  induction ts with
  | nil => exact fill_nil
  | cons t ts ih =>
    rw [List.forall_mem_cons] at unclosed
    rw [fill]
    split
    · split
      · rename_i found
        rw [closing_eq_none.mpr unclosed.2] at found
        cases found
      · rw [ih unclosed.2]
    · rw [ih unclosed.2]

/--
A list is taken apart at the regions of a key.

There is none at its head, or one that is open to the end, or a closed one.
-/
theorem regionInduction (kind : τ → Option (κ × Bool)) (key : κ) {motive : List τ → Prop} (nil : motive [])
    (other : ∀ t ts, kind t ≠ some (key, true) → motive ts → motive (t :: ts))
    (unclosed : ∀ t ts, kind t = some (key, true) → (∀ c ∈ ts, kind c ≠ some (key, false)) →
      motive ts → motive (t :: ts))
    (region : ∀ t inner c rest, kind t = some (key, true) → kind c = some (key, false) →
      (∀ p ∈ inner, kind p ≠ some (key, false)) → motive rest → motive (t :: (inner ++ c :: rest)))
    (ts : List τ) : motive ts := by
  -- The induction is on the length, since a region is passed over as a whole.
  induction hsize : ts.length using Nat.strongRecOn generalizing ts with
  | _ size ih =>
    subst hsize
    cases ts with
    | nil => exact nil
    | cons t ts =>
      have rest := fun back (shorter : back.length < (t :: ts).length) => ih back.length shorter back rfl
      by_cases opens : kind t = some (key, true)
      · cases found : closing kind key ts with
        | none =>
          exact unclosed t ts opens (closing_eq_none.mp found) (rest ts (by simp))
        | some pair =>
          obtain ⟨c, back⟩ := pair
          have shorter := closing_length found
          obtain ⟨inner, rfl, closes, others⟩ := closing_eq_some.mp found
          exact region t inner c back opens closes others (rest back (by simp; omega))
      · exact other t ts opens (rest ts (by simp))

/-- A region that is filled is still a region of its key. -/
theorem hasRegion_fill : ∀ ts : List τ, HasRegion kind f.key ts → HasRegion kind f.key (fill f ts) := by
  intro ts
  -- The induction follows the regions, and the first one that is closed is enough.
  induction ts using regionInduction kind f.key with
  | nil =>
    rw [fill_nil]
    exact id
  | other t ts other ih =>
    rw [fill_other other, HasRegion, HasRegion]
    exact Or.imp (fun opened => absurd opened.1 other) ih
  | unclosed t ts opens unclosed _ =>
    rw [fill_unclosed (List.forall_mem_cons.mpr ⟨by simp [opens], unclosed⟩)]
    exact id
  | region t inner c rest opens closes others ih =>
    intro _
    have plain : ∀ p ∈ f.inner, kind p ≠ some (f.key, false) := by
      intro p member
      simp [f.plain p member]
    have found : closing kind f.key (f.inner ++ c :: fill f rest) = some (c, fill f rest) :=
      closing_eq_some.mpr ⟨f.inner, rfl, closes, plain⟩
    rw [fill_region opens closes others, List.cons_append, HasRegion, found]
    exact .inl ⟨f.opens, by simp⟩

/-- The tokens that are filled in are those of the filling. -/
theorem mem_fill : ∀ ts : List τ, t ∈ fill f ts → t ∈ ts ∨ t = f.opening ∨ t ∈ f.inner := by
  intro ts
  -- The induction follows the regions.
  induction ts using regionInduction kind f.key with
  | nil =>
    rw [fill_nil]
    exact .inl
  | other first ts other ih =>
    rw [fill_other other, List.mem_cons, List.mem_cons, or_assoc]
    exact Or.imp_right ih
  | unclosed first ts opens unclosed _ =>
    rw [fill_unclosed (List.forall_mem_cons.mpr ⟨by simp [opens], unclosed⟩)]
    exact .inl
  | region first inner c rest opens closes others ih =>
    rw [fill_region opens closes others]
    simp only [List.cons_append, List.mem_cons, List.mem_append]
    rintro (rfl | held | rfl | later)
    · exact .inr (.inl rfl)
    · exact .inr (.inr held)
    · exact .inl (.inr (.inr (.inl rfl)))
    · exact (ih later).imp_left fun listed => .inr (.inr (.inr listed))

end Fill

section Holds

variable {ts rest inner : List τ} {t c : τ} {f g : Filling kind}

/-- Every region of the key that is closed holds what the filling has for it. -/
def Holds (f : Filling kind) : List τ → Prop
  | [] => True
  | t :: ts => (kind t = some (f.key, true) → (∀ c ∈ ts, kind c ≠ some (f.key, false)) ∨
      t = f.opening ∧ ∃ c rest, ts = f.inner ++ c :: rest ∧ kind c = some (f.key, false)) ∧ Holds f ts

/-- A token that opens no region of the key does not matter. -/
theorem holds_cons_other (other : kind t ≠ some (f.key, true)) : Holds f (t :: ts) ↔ Holds f ts := by
  rw [Holds]
  exact and_iff_right fun opens => absurd opens other

/-- Tokens that open no region of the key do not matter. -/
theorem holds_append_plain (plain : ∀ t ∈ inner, kind t ≠ some (f.key, true)) :
    Holds f (inner ++ ts) ↔ Holds f ts := by
  -- The induction is on the tokens in front.
  induction inner with
  | nil => rfl
  | cons t inner ih =>
    rw [List.forall_mem_cons] at plain
    rw [List.cons_append, holds_cons_other plain.1, ih plain.2]

/-- Regions further behind hold what the filling has too. -/
theorem Holds.behind (holds : Holds f (inner ++ ts)) : Holds f ts := by
  -- The induction is on the tokens in front.
  induction inner with
  | nil => exact holds
  | cons t inner ih => exact ih holds.2

/-- Without a token that closes there is no region to hold anything. -/
theorem holds_unclosed (unclosed : ∀ t ∈ ts, kind t ≠ some (f.key, false)) : Holds f ts := by
  -- The induction is on the tokens.
  induction ts with
  | nil => trivial
  | cons t ts ih =>
    rw [List.forall_mem_cons] at unclosed
    exact ⟨fun _ => .inl unclosed.2, ih unclosed.2⟩

/-- No token of a filling closes a region. -/
theorem Filling.never_closes (f : Filling kind) (key : κ) : kind f.opening ≠ some (key, false) ∧
    ∀ t ∈ f.inner, kind t ≠ some (key, false) := by
  constructor
  · simp [f.opens]
  · intro t member
    simp [f.plain t member]

/-- No token of a filling opens a region of another key. -/
theorem Filling.opens_only (f : Filling kind) {key : κ} (other : f.key ≠ key) : kind f.opening ≠ some (key, true) ∧
    ∀ t ∈ f.inner, kind t ≠ some (key, true) := by
  constructor
  · simp [f.opens, other]
  · intro t member
    simp [f.plain t member]

variable [DecidableEq κ]

/-- Regions that are filled hold what the filling has. -/
theorem holds_fill (f : Filling kind) (ts : List τ) : Holds f (fill f ts) := by
  -- The induction follows the regions.
  induction ts using regionInduction kind f.key with
  | nil =>
    rw [fill_nil]
    trivial
  | other t ts other ih => rwa [fill_other other, holds_cons_other other]
  | unclosed t ts opens unclosed _ =>
    have whole : ∀ c ∈ t :: ts, kind c ≠ some (f.key, false) :=
      List.forall_mem_cons.mpr ⟨by simp [opens], unclosed⟩
    rw [fill_unclosed whole]
    exact holds_unclosed whole
  | region t inner c rest opens closes others ih =>
    rw [fill_region opens closes others, List.cons_append]
    refine ⟨fun _ => .inr ⟨rfl, c, _, rfl, closes⟩, ?_⟩
    -- No token of the filling opens another region.
    have plain : ∀ p ∈ f.inner, kind p ≠ some (f.key, true) := by
      intro p member
      simp [f.plain p member]
    rw [holds_append_plain plain, holds_cons_other (by simp [closes])]
    exact ih

/-- Filling changes nothing where everything is filled already. -/
theorem fill_of_holds : ∀ ts, Holds f ts → fill f ts = ts := by
  intro ts
  -- The induction follows the regions.
  induction ts using regionInduction kind f.key with
  | nil => exact fun _ => fill_nil
  | other t ts other ih =>
    intro holds
    rw [fill_other other, ih holds.2]
  | unclosed t ts opens unclosed _ =>
    intro _
    exact fill_unclosed (List.forall_mem_cons.mpr ⟨by simp [opens], unclosed⟩)
  | region t inner c rest opens closes others ih =>
    rintro ⟨held, later⟩
    rw [fill_region opens closes others, ih (Holds.behind later).2]
    rcases held opens with unclosed | ⟨rfl, other, back, split, closed⟩
    · exact absurd closes (unclosed c (by simp))
    · -- The first closing token is the same, so what is in front of it is too.
      have first : closing kind f.key (inner ++ c :: rest) = some (c, rest) :=
        closing_eq_some.mpr ⟨inner, rfl, closes, others⟩
      rw [closing_eq_some.mpr ⟨f.inner, split, closed, (f.never_closes f.key).2⟩] at first
      cases first
      rw [List.append_left_inj] at split
      rw [split, List.cons_append]

/-- Filling the regions of one key leaves what those of another key hold. -/
theorem holds_keep (other : g.key ≠ f.key) : ∀ ts, Holds f ts → Holds f (fill g ts) := by
  intro ts
  -- The induction follows the regions of the other key.
  induction ts using regionInduction kind g.key with
  | nil =>
    rw [fill_nil]
    exact id
  | other t ts outside ih =>
    intro holds
    rw [fill_other outside]
    refine ⟨fun opens => ?_, ih holds.2⟩
    -- A region that begins here is not closed, or holds its filling, and stays so.
    rcases holds.1 opens with unclosed | ⟨same, c, rest, rfl, closes⟩
    · left
      intro c listed
      rcases mem_fill ts listed with here | rfl | inside
      · exact unclosed c here
      · exact (g.never_closes f.key).1
      · exact (g.never_closes f.key).2 c inside
    · right
      refine ⟨same, c, fill g rest, ?_, closes⟩
      rw [fill_plain (f.opens_only other.symm).2, fill_other (by simp [closes])]
  | unclosed t ts opens unclosed _ =>
    rw [fill_unclosed (List.forall_mem_cons.mpr ⟨by simp [opens], unclosed⟩)]
    exact id
  | region t inner c rest opens closes others ih =>
    intro holds
    -- What the region of the other key had inside is gone, and what is behind it is kept.
    have later : Holds f rest := (@Holds.behind _ _ _ _ (t :: inner) f holds).2
    obtain ⟨opening, inside⟩ := g.opens_only other
    rw [fill_region opens closes others, List.cons_append, holds_cons_other opening,
      holds_append_plain inside, holds_cons_other (by simp [closes])]
    exact ih later

end Holds

section Flat

variable {ts rest inner : List τ} {t c : τ} {f g : Filling kind}

/-- Every mark that opens a region is followed by the one that closes it, with plain tokens between them. -/
def Flat (kind : τ → Option (κ × Bool)) : List τ → Prop
  | [] => True
  | t :: ts => (∀ key, kind t = some (key, true) → ∃ inner c rest, ts = inner ++ c :: rest ∧
      kind c = some (key, false) ∧ ∀ p ∈ inner, kind p = none) ∧ Flat kind ts

/-- What is behind some tokens of a flat list is flat. -/
theorem Flat.behind (flat : Flat kind (inner ++ ts)) : Flat kind ts := by
  -- The induction is on the tokens in front.
  induction inner with
  | nil => exact flat
  | cons t inner ih => exact ih flat.2

variable [DecidableEq κ]

end Flat

section Several

variable [DecidableEq κ] {fs gs : List (Filling kind)} {ts : List τ} {f : Filling kind}

/-- Fill the regions of several keys, one key after the other. -/
def fillAll (fs : List (Filling kind)) (ts : List τ) : List τ := fs.foldl (fun ts f => fill f ts) ts

/-- Filling the regions of other keys leaves what those of a key hold. -/
theorem holds_fillAll (other : f.key ∉ fs.map Filling.key) (holds : Holds f ts) :
    Holds f (fillAll fs ts) := by
  -- The induction is on the fillings.
  induction fs generalizing ts with
  | nil => exact holds
  | cons g fs ih =>
    rw [List.map_cons, List.mem_cons, not_or] at other
    exact ih other.2 (holds_keep (Ne.symm other.1) ts holds)

/-- Everything that was filled stays filled. -/
theorem fillAll_holds (distinct : (fs.map Filling.key).Nodup) (ts : List τ) :
    ∀ f ∈ fs, Holds f (fillAll fs ts) := by
  -- The induction is on the fillings, none of which has the key of one before it.
  induction fs generalizing ts with
  | nil => simp
  | cons g fs ih =>
    rw [List.map_cons, List.nodup_cons] at distinct
    rw [List.forall_mem_cons, fillAll, List.foldl_cons]
    exact ⟨holds_fillAll distinct.1 (holds_fill g ts), ih distinct.2 (fill g ts)⟩

/-- Filling changes nothing where every filling is there already. -/
theorem fillAll_of_holds (holds : ∀ f ∈ fs, Holds f ts) : fillAll fs ts = ts := by
  -- The induction is on the fillings.
  induction fs with
  | nil => rfl
  | cons f fs ih =>
    rw [List.forall_mem_cons] at holds
    rw [fillAll, List.foldl_cons, fill_of_holds ts holds.1]
    exact ih holds.2

end Several

end Wire
