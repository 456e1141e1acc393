import Zmux.Wire.Bytes

/-! Layouts of numbers and bytes, the ways they can be spelled, and the shortest of these. -/

namespace Wire

/--
A way of writing numbers in which one number can have forms of several widths.

The forms are told apart at the front of any byte string, and a number has every width that a larger number has.
-/
structure NumberFormat where
  /-- Whether a number has a form of a width. -/
  Legal : Nat → Nat → Prop
  /-- The form of a number in a width. -/
  form : Nat → Nat → Bytes
  /-- The smallest width a number has. -/
  shortest : Nat → Nat
  /-- A form is as wide as it says. -/
  form_length : ∀ {number width}, Legal number width → (form number width).length = width
  /-- No form is narrower than the shortest. -/
  shortest_le : ∀ {number width}, Legal number width → shortest number ≤ width
  /-- A number with any form has its shortest form. -/
  legal_shortest : ∀ {number width}, Legal number width → Legal number (shortest number)
  /-- A smaller number fits wherever a larger one does. -/
  downward : ∀ {small large width}, small ≤ large → Legal large width → Legal small width
  /-- Forms are told apart whatever follows them. -/
  decodable : ∀ {left right width other rest tail}, Legal left width → Legal right other →
    form left width ++ rest = form right other ++ tail → left = right ∧ width = other ∧ rest = tail

/-- A sequence of numbers, literal bytes, and parts that are preceded by their own byte count. -/
inductive Layout where
  /-- Nothing more. -/
  | done
  /-- A number, then the rest. -/
  | num (number : Nat) (rest : Layout)
  /-- Literal bytes, then the rest. -/
  | bytes (literal : Bytes) (rest : Layout)
  /-- A part behind its byte count, then the rest. -/
  | sized (body : Layout) (rest : Layout)

namespace Layout

/-- One layout after another. -/
def append : Layout → Layout → Layout
  | done, last => last
  | num number rest, last => num number (rest.append last)
  | bytes literal rest, last => bytes literal (rest.append last)
  | sized body rest, last => sized body (rest.append last)

instance : Append Layout := ⟨append⟩

/-- Nothing in front of a layout leaves it. -/
@[simp] theorem done_append (last : Layout) : done ++ last = last := rfl

/-- A number stays in front when a layout is put behind. -/
@[simp] theorem num_append (number : Nat) (rest last : Layout) :
    num number rest ++ last = num number (rest ++ last) := rfl

/-- Bytes stay in front when a layout is put behind. -/
@[simp] theorem bytes_append (literal : Bytes) (rest last : Layout) :
    bytes literal rest ++ last = bytes literal (rest ++ last) := rfl

/-- A sized part stays in front when a layout is put behind. -/
@[simp] theorem sized_append (body rest last : Layout) :
    sized body rest ++ last = sized body (rest ++ last) := rfl

end Layout

/--
A byte string starts with a spelling of a layout and goes on with a rest.

The list names every number written, byte counts included, with the width it was written in.
-/
inductive Reads (format : NumberFormat) : Layout → List (Nat × Nat) → Bytes → Bytes → Prop where
  /-- Nothing is spelled by no bytes. -/
  | done {window : Bytes} : Reads format .done [] window window
  /-- A number may take any of its widths. -/
  | num {number width : Nat} {rest : Layout} {widths : List (Nat × Nat)} {window left : Bytes}
      (legal : format.Legal number width) (more : Reads format rest widths window left) :
      Reads format (.num number rest) ((number, width) :: widths)
        (format.form number width ++ window) left
  /-- Literal bytes stand for themselves. -/
  | bytes {literal : Bytes} {rest : Layout} {widths : List (Nat × Nat)} {window left : Bytes}
      (more : Reads format rest widths window left) :
      Reads format (.bytes literal rest) widths (literal ++ window) left
  /-- The byte count is that of the part as it is spelled. -/
  | sized {body rest : Layout} {inner window left : Bytes} {within widths : List (Nat × Nat)}
      {width : Nat} (part : Reads format body within inner [])
      (legal : format.Legal inner.length width) (more : Reads format rest widths window left) :
      Reads format (.sized body rest) ((inner.length, width) :: (within ++ widths))
        (format.form inner.length width ++ (inner ++ window)) left

/-- A byte string starts with some spelling of a layout. -/
def Starts (format : NumberFormat) (layout : Layout) (window left : Bytes) : Prop :=
  -- The widths are forgotten where only acceptance matters.
  ∃ widths, Reads format layout widths window left

variable {format : NumberFormat}

/-- Nothing is read where nothing is laid out. -/
theorem reads_done_iff {widths : List (Nat × Nat)} {window left : Bytes} :
    Reads format .done widths window left ↔ widths = [] ∧ window = left := by
  -- Only one rule spells the empty layout, and it reads nothing.
  constructor
  · intro spelled
    cases spelled
    exact ⟨rfl, rfl⟩
  · intro spelled
    rcases spelled with ⟨rfl, rfl⟩
    exact .done

/-- A number is read in a legal form, and the rest behind it. -/
theorem reads_num_iff {number : Nat} {rest : Layout} {widths : List (Nat × Nat)}
    {window left : Bytes} :
    Reads format (.num number rest) widths window left ↔ ∃ width more behind,
      format.Legal number width ∧ widths = (number, width) :: more ∧
      window = format.form number width ++ behind ∧ Reads format rest more behind left := by
  -- Only one rule spells a number, so the spelling names the width it chose.
  constructor
  · intro spelled
    cases spelled
    exact ⟨_, _, _, by assumption, rfl, rfl, by assumption⟩
  · intro spelled
    rcases spelled with ⟨width, more, behind, legal, rfl, rfl, reads⟩
    exact .num legal reads

/-- Bytes are read as they are, and the rest behind them. -/
theorem reads_bytes_iff {literal : Bytes} {rest : Layout} {widths : List (Nat × Nat)}
    {window left : Bytes} :
    Reads format (.bytes literal rest) widths window left ↔
      ∃ behind, window = literal ++ behind ∧ Reads format rest widths behind left := by
  -- Only one rule spells literal bytes, and it leaves no choice.
  constructor
  · intro spelled
    cases spelled
    exact ⟨_, rfl, by assumption⟩
  · intro spelled
    rcases spelled with ⟨behind, rfl, reads⟩
    exact .bytes reads

/-- A sized part is read in full behind its length, and the rest behind it. -/
theorem reads_sized_iff {body rest : Layout} {widths : List (Nat × Nat)} {window left : Bytes} :
    Reads format (.sized body rest) widths window left ↔ ∃ inner width within more behind,
      Reads format body within inner [] ∧ format.Legal inner.length width ∧
      widths = (inner.length, width) :: (within ++ more) ∧
      window = format.form inner.length width ++ (inner ++ behind) ∧
      Reads format rest more behind left := by
  -- The part is spelled on its own, which fixes the byte count in front of it.
  constructor
  · intro spelled
    cases spelled
    exact ⟨_, _, _, _, _, by assumption, by assumption, rfl, rfl, by assumption⟩
  · intro spelled
    rcases spelled with ⟨inner, width, within, more, behind, part, legal, rfl, rfl, reads⟩
    exact .sized part legal reads

/-- A window starts with nothing, and all of it is left. -/
@[simp] theorem starts_done_iff {window left : Bytes} :
    Starts format .done window left ↔ window = left := by
  -- The list of widths can only be empty.
  simp [Starts, reads_done_iff]

/-- A window starts with a number in a legal form, and then with the rest. -/
theorem starts_num_iff {number : Nat} {rest : Layout} {window left : Bytes} :
    Starts format (.num number rest) window left ↔ ∃ width behind, format.Legal number width ∧
      window = format.form number width ++ behind ∧ Starts format rest behind left := by
  -- The width of this number is kept apart from the widths of the rest.
  constructor
  · intro spelled
    rcases spelled with ⟨widths, reads⟩
    obtain ⟨width, more, behind, legal, -, same, rest⟩ := reads_num_iff.mp reads
    exact ⟨width, behind, legal, same, more, rest⟩
  · intro spelled
    rcases spelled with ⟨width, behind, legal, rfl, more, rest⟩
    exact ⟨_, .num legal rest⟩

/-- A window starts with the bytes, and then with the rest. -/
@[simp] theorem starts_bytes_iff {literal : Bytes} {rest : Layout} {window left : Bytes} :
    Starts format (.bytes literal rest) window left ↔
      ∃ behind, window = literal ++ behind ∧ Starts format rest behind left := by
  -- Literal bytes add no width.
  constructor
  · intro spelled
    rcases spelled with ⟨widths, reads⟩
    obtain ⟨behind, same, rest⟩ := reads_bytes_iff.mp reads
    exact ⟨behind, same, widths, rest⟩
  · intro spelled
    rcases spelled with ⟨behind, rfl, more, rest⟩
    exact ⟨_, .bytes rest⟩

/-- A window starts with a sized part behind its length, and then with the rest. -/
theorem starts_sized_iff {body rest : Layout} {window left : Bytes} :
    Starts format (.sized body rest) window left ↔ ∃ inner width behind,
      Starts format body inner [] ∧ format.Legal inner.length width ∧
      window = format.form inner.length width ++ (inner ++ behind) ∧
      Starts format rest behind left := by
  -- The widths of the part and of the rest are forgotten separately.
  constructor
  · intro spelled
    rcases spelled with ⟨widths, reads⟩
    obtain ⟨inner, width, within, more, behind, part, legal, -, same, rest⟩ :=
      reads_sized_iff.mp reads
    exact ⟨inner, width, behind, ⟨within, part⟩, legal, same, more, rest⟩
  · intro spelled
    rcases spelled with ⟨inner, width, behind, ⟨within, part⟩, legal, rfl, more, rest⟩
    exact ⟨_, .sized part legal rest⟩

/-- A byte string begins with a form of a number, which others follow. -/
def Begins (format : NumberFormat) (number : Nat) (window behind : Bytes) : Prop :=
  -- This is one number of a layout, with what follows it left open.
  ∃ width, format.Legal number width ∧ window = format.form number width ++ behind

/-- A number and the rest of a layout meet at a byte string between them. -/
@[simp] theorem starts_num_begins {number : Nat} {rest : Layout} {window left : Bytes} :
    Starts format (.num number rest) window left ↔
      ∃ behind, Begins format number window behind ∧ Starts format rest behind left := by
  -- The two sides differ only in where the remaining bytes are quantified.
  rw [starts_num_iff]
  constructor
  · intro starts
    obtain ⟨width, behind, legal, same, more⟩ := starts
    exact ⟨behind, ⟨width, legal, same⟩, more⟩
  · intro starts
    obtain ⟨behind, ⟨width, legal, same⟩, more⟩ := starts
    exact ⟨width, behind, legal, same, more⟩

/-- A part and the rest of a layout meet behind the part, which begins behind its byte count. -/
@[simp] theorem starts_sized_begins {body rest : Layout} {window left : Bytes} :
    Starts format (.sized body rest) window left ↔ ∃ inner behind,
      Begins format inner.length window (inner ++ behind) ∧ Starts format body inner [] ∧
      Starts format rest behind left := by
  -- The byte count is a number like any other, in front of the part.
  rw [starts_sized_iff]
  constructor
  · intro starts
    obtain ⟨inner, width, behind, part, legal, same, more⟩ := starts
    exact ⟨inner, behind, ⟨width, legal, same⟩, part, more⟩
  · intro starts
    obtain ⟨inner, behind, ⟨width, legal, same⟩, part, more⟩ := starts
    exact ⟨inner, width, behind, part, legal, same, more⟩

/-- Layouts one after the other are spelled one after the other. -/
theorem reads_append_iff {first last : Layout} {widths : List (Nat × Nat)} {window left : Bytes} :
    Reads format (first ++ last) widths window left ↔ ∃ front back middle,
      widths = front ++ back ∧ Reads format first front window middle ∧
      Reads format last back middle left := by
  -- The induction is on the first layout, whose last bytes are where the second begins.
  induction first generalizing widths window with
  | done => simp [reads_done_iff]
  | num number rest ih =>
    simp only [Layout.num_append, reads_num_iff, ih]
    constructor
    · intro spelled
      rcases spelled with ⟨width, _, behind, legal, rfl, rfl, front, back, middle, rfl, reads, more⟩
      exact ⟨(number, width) :: front, back, middle, rfl,
        ⟨width, front, behind, legal, rfl, rfl, reads⟩, more⟩
    · intro spelled
      rcases spelled with ⟨_, back, middle, rfl, ⟨width, front, behind, legal, rfl, rfl, reads⟩, more⟩
      exact ⟨width, front ++ back, behind, legal, rfl, rfl, front, back, middle, rfl, reads, more⟩
  | bytes literal rest ih =>
    simp only [Layout.bytes_append, reads_bytes_iff, ih]
    constructor
    · intro spelled
      rcases spelled with ⟨behind, rfl, front, back, middle, rfl, reads, more⟩
      exact ⟨front, back, middle, rfl, ⟨behind, rfl, reads⟩, more⟩
    · intro spelled
      rcases spelled with ⟨front, back, middle, rfl, ⟨behind, rfl, reads⟩, more⟩
      exact ⟨behind, rfl, front, back, middle, rfl, reads, more⟩
  | sized body rest _ ih =>
    simp only [Layout.sized_append, reads_sized_iff, ih]
    constructor
    · intro spelled
      rcases spelled with ⟨inner, width, within, _, behind, part, legal, rfl, rfl,
        front, back, middle, rfl, reads, more⟩
      -- The widths of the part stay in front of those of the rest.
      exact ⟨(inner.length, width) :: (within ++ front), back, middle, by simp,
        ⟨inner, width, within, front, behind, part, legal, rfl, rfl, reads⟩, more⟩
    · intro spelled
      rcases spelled with ⟨_, back, middle, rfl,
        ⟨inner, width, within, front, behind, part, legal, rfl, rfl, reads⟩, more⟩
      exact ⟨inner, width, within, front ++ back, behind, part, legal, by simp, rfl,
        front, back, middle, rfl, reads, more⟩

/-- Layouts one after the other start where the first one starts. -/
theorem starts_append_iff {first last : Layout} {window left : Bytes} :
    Starts format (first ++ last) window left ↔
      ∃ middle, Starts format first window middle ∧ Starts format last middle left := by
  -- The widths of the whole are those of the first layout, then those of the last.
  constructor
  · intro spelled
    rcases spelled with ⟨widths, reads⟩
    obtain ⟨front, back, middle, -, begun, ended⟩ := reads_append_iff.mp reads
    exact ⟨middle, ⟨front, begun⟩, back, ended⟩
  · intro spelled
    rcases spelled with ⟨middle, ⟨front, begun⟩, back, ended⟩
    exact ⟨front ++ back, reads_append_iff.mpr ⟨front, back, middle, rfl, begun, ended⟩⟩

/-- A spelling is a prefix of its own, whatever follows it. -/
theorem reads_prefix_iff {layout : Layout} {widths : List (Nat × Nat)} {window left : Bytes} :
    Reads format layout widths window left ↔
      ∃ spelled, window = spelled ++ left ∧ Reads format layout widths spelled [] := by
  -- No rule looks at the bytes left over, so they can be exchanged for any others.
  constructor
  · intro reads
    induction reads with
    | done => exact ⟨[], rfl, .done⟩
    | num legal _ ih =>
      obtain ⟨spelled, rfl, more⟩ := ih
      exact ⟨_, (List.append_assoc ..).symm, .num legal more⟩
    | bytes _ ih =>
      obtain ⟨spelled, rfl, more⟩ := ih
      exact ⟨_, (List.append_assoc ..).symm, .bytes more⟩
    | @sized _ _ inner _ _ _ _ _ part legal _ _ ih =>
      obtain ⟨spelled, rfl, more⟩ := ih
      exact ⟨_, by simp only [List.append_assoc], .sized part legal more⟩
  · intro split
    rcases split with ⟨spelled, rfl, reads⟩
    -- The empty rest is named, so that the induction may ask for it at every stage.
    generalize ended : ([] : Bytes) = rest at reads
    induction reads with
    | done =>
      subst ended
      exact .done
    | num legal _ ih =>
      rw [List.append_assoc]
      exact .num legal (ih ended)
    | bytes _ ih =>
      rw [List.append_assoc]
      exact .bytes (ih ended)
    | sized part legal _ _ ih =>
      rw [List.append_assoc, List.append_assoc]
      exact .sized part legal (ih ended)

/-- What a spelling leaves may go on further. -/
theorem Starts.append {layout : Layout} {window left : Bytes}
    (starts : Starts format layout window left) (more : Bytes) :
    Starts format layout (window ++ more) (left ++ more) := by
  -- The spelling is a front of the window, and stays one.
  obtain ⟨widths, reads⟩ := starts
  obtain ⟨spelled, rfl, alone⟩ := reads_prefix_iff.mp reads
  exact ⟨widths, reads_prefix_iff.mpr ⟨spelled, List.append_assoc .., alone⟩⟩

/-- A byte string starts with at most one spelling of a layout. -/
theorem reads_unique {layout : Layout} {widths others : List (Nat × Nat)}
    {window left remaining : Bytes} (first : Reads format layout widths window left)
    (second : Reads format layout others window remaining) :
    widths = others ∧ left = remaining := by
  -- The induction is on the first spelling, and the second is read off rule by rule.
  generalize same : window = start at second
  induction first generalizing others remaining start with
  | done =>
    obtain ⟨rfl, rfl⟩ := reads_done_iff.mp second
    exact ⟨rfl, same⟩
  | num legal _ ih =>
    obtain ⟨width, more, behind, lawful, rfl, rfl, reads⟩ := reads_num_iff.mp second
    -- The number is told apart from what follows it, so the two widths are one.
    obtain ⟨-, rfl, rfl⟩ := format.decodable legal lawful same
    obtain ⟨rfl, rfl⟩ := ih _ rfl reads
    exact ⟨rfl, rfl⟩
  | bytes _ ih =>
    obtain ⟨behind, rfl, reads⟩ := reads_bytes_iff.mp second
    -- Equal literal bytes are followed by equal bytes.
    exact ih _ (List.append_cancel_left same) reads
  | sized _ legal _ ihPart ih =>
    obtain ⟨inner, width, within, more, behind, part, lawful, rfl, rfl, reads⟩ :=
      reads_sized_iff.mp second
    obtain ⟨count, rfl, joined⟩ := format.decodable legal lawful same
    -- Parts with the same byte count are cut off at the same place.
    obtain ⟨rfl, rfl⟩ := List.append_inj joined count
    obtain ⟨rfl, -⟩ := ihPart _ rfl part
    obtain ⟨rfl, rfl⟩ := ih _ rfl reads
    exact ⟨rfl, rfl⟩

namespace Layout

/-- The spelling of a layout with every number in its shortest form. -/
def short (format : NumberFormat) : Layout → Bytes
  | done => []
  | num number rest => format.form number (format.shortest number) ++ rest.short format
  | bytes literal rest => literal ++ rest.short format
  | sized body rest =>
    let inner := body.short format
    format.form inner.length (format.shortest inner.length) ++ (inner ++ rest.short format)

/-- Every number of a layout has a form, byte counts of the shortest spelling included. -/
def Fits (format : NumberFormat) : Layout → Prop
  | done => True
  | num number rest => format.Legal number (format.shortest number) ∧ rest.Fits format
  | bytes _ rest => rest.Fits format
  | sized body rest =>
    body.Fits format ∧
    format.Legal (body.short format).length (format.shortest (body.short format).length) ∧
    rest.Fits format

/-- The shortest spelling of one layout after another. -/
@[simp] theorem short_append (first last : Layout) :
    (first ++ last).short format = first.short format ++ last.short format := by
  -- Nothing in one layout depends on another that follows it.
  induction first <;> simp_all [short]

/-- Two layouts fit one behind the other when each of them does. -/
@[simp] theorem fits_append {first last : Layout} :
    (first ++ last).Fits format ↔ first.Fits format ∧ last.Fits format := by
  -- Each condition is about one component, so the conditions of the two layouts are collected.
  induction first <;> simp_all [Fits, and_assoc]

/-- A layout that fits is spelled by its shortest spelling. -/
theorem starts_short {layout : Layout} (fits : layout.Fits format) (left : Bytes) :
    Starts format layout (layout.short format ++ left) left := by
  -- The shortest widths are legal, so each rule applies to them.
  induction layout generalizing left with
  | done => exact ⟨[], .done⟩
  | num number rest ih =>
    obtain ⟨legal, more⟩ := fits
    simp only [short, starts_num_iff, List.append_assoc]
    exact ⟨_, _, legal, rfl, ih more left⟩
  | bytes literal rest ih =>
    simp only [short, starts_bytes_iff, List.append_assoc]
    exact ⟨_, rfl, ih fits left⟩
  | sized body rest ihBody ih =>
    obtain ⟨part, legal, more⟩ := fits
    simp only [short, starts_sized_iff, List.append_assoc]
    -- The part is spelled with nothing behind it, and the rest behind the part.
    exact ⟨_, _, _, by simpa using ihBody part [], legal, rfl, ih more left⟩

end Layout

/-- Smaller numbers have shorter forms. -/
theorem NumberFormat.shortest_mono {small large width : Nat} (smaller : small ≤ large)
    (legal : format.Legal large width) : format.shortest small ≤ format.shortest large :=
  format.shortest_le (format.downward smaller (format.legal_shortest legal))

/-- A spelled layout fits, and its shortest spelling is no longer than the one it was given. -/
theorem reads_short {layout : Layout} {widths : List (Nat × Nat)} {window left : Bytes}
    (reads : Reads format layout widths window left) :
    layout.Fits format ∧ (layout.short format).length + left.length ≤ window.length := by
  -- The induction compares the two spellings component by component.
  induction reads with
  | done => exact ⟨trivial, by simp [Layout.short]⟩
  | num legal _ ih =>
    obtain ⟨fits, bound⟩ := ih
    have shorter := format.shortest_le legal
    refine ⟨⟨format.legal_shortest legal, fits⟩, ?_⟩
    simp only [Layout.short, List.length_append, format.form_length legal,
      format.form_length (format.legal_shortest legal)]
    omega
  | bytes _ ih =>
    obtain ⟨fits, bound⟩ := ih
    refine ⟨fits, ?_⟩
    simp only [Layout.short, List.length_append]
    omega
  | sized _ legal _ ihPart ih =>
    obtain ⟨partFits, partBound⟩ := ihPart
    obtain ⟨fits, bound⟩ := ih
    -- A shorter part has a smaller byte count, which is written no wider.
    simp only [List.length_nil, Nat.add_zero] at partBound
    have smaller := format.legal_shortest (format.downward partBound legal)
    have shorter := format.shortest_le (format.downward partBound legal)
    refine ⟨⟨partFits, smaller, fits⟩, ?_⟩
    simp only [Layout.short, List.length_append, format.form_length legal,
      format.form_length smaller]
    omega

/-- Every number of a spelling is in its shortest form. -/
def Shortest (format : NumberFormat) (widths : List (Nat × Nat)) : Prop :=
  ∀ written ∈ widths, written.2 = format.shortest written.1

/-- A spelling with every number in its shortest form is the shortest spelling. -/
theorem reads_of_shortest {layout : Layout} {widths : List (Nat × Nat)} {window left : Bytes}
    (reads : Reads format layout widths window left) (all : Shortest format widths) :
    window = layout.short format ++ left := by
  -- Each width in the list is the shortest one of its number, so each form is the one in `short`.
  induction reads with
  | done => rfl
  | @num number width _ _ _ _ legal _ ih =>
    have least : width = format.shortest number := all _ List.mem_cons_self
    have rest := ih fun written member => all written (List.mem_cons_of_mem _ member)
    simp only [Layout.short, ← least, rest, List.append_assoc]
  | bytes _ ih => simp only [Layout.short, ih all, List.append_assoc]
  | @sized _ _ inner _ _ within widths width _ _ _ ihPart ih =>
    have least : width = format.shortest inner.length := all _ List.mem_cons_self
    have part := ihPart fun written member => all written (by simp [member])
    have rest := ih fun written member => all written (by simp [member])
    simp only [List.append_nil] at part
    simp only [Layout.short, ← part, ← least, rest, List.append_assoc]

/-- A spelling as short as the shortest has every number in its shortest form. -/
theorem shortest_of_reads {layout : Layout} {widths : List (Nat × Nat)} {window left : Bytes}
    (reads : Reads format layout widths window left)
    (least : window.length = (layout.short format).length + left.length) :
    Shortest format widths := by
  -- The total is the least possible, and no component can make up for another that is wider.
  induction reads with
  | done => simp [Shortest]
  | num legal more ih =>
    have bound := (reads_short more).2
    have shorter := format.shortest_le legal
    simp only [Layout.short, List.length_append, format.form_length legal,
      format.form_length (format.legal_shortest legal)] at least
    intro written member
    rcases List.mem_cons.mp member with rfl | member
    · simp only
      omega
    · exact ih (by omega) written member
  | bytes _ ih =>
    simp only [Layout.short, List.length_append] at least
    exact ih (by omega)
  | sized part legal more ihPart ih =>
    have partBound := (reads_short part).2
    have bound := (reads_short more).2
    simp only [List.length_nil, Nat.add_zero] at partBound
    have smaller := format.legal_shortest (format.downward partBound legal)
    have narrower := format.shortest_mono partBound legal
    have shorter := format.shortest_le legal
    simp only [Layout.short, List.length_append, format.form_length legal,
      format.form_length smaller] at least
    -- No component is shorter than in the shortest spelling, so none is longer either.
    intro written member
    rcases List.mem_cons.mp member with rfl | member
    · simp only
      omega
    rcases List.mem_append.mp member with member | member
    · exact ihPart (by simp only [List.length_nil]; omega) written member
    · exact ih (by omega) written member

/-- A spelling is the shortest one exactly when it has every number in its shortest form. -/
theorem reads_eq_short_iff {layout : Layout} {widths : List (Nat × Nat)} {window : Bytes}
    (reads : Reads format layout widths window []) :
    layout.short format = window ↔ Shortest format widths := by
  -- A spelling with nothing behind it is shortest as a whole exactly when it is shortest
  -- throughout.
  constructor
  · intro same
    subst same
    exact shortest_of_reads reads (by simp)
  · intro all
    simpa using (reads_of_shortest reads all).symm

/-- The shortest spelling has fewer bytes than any other. -/
theorem reads_longer_iff {layout : Layout} {widths : List (Nat × Nat)} {window : Bytes}
    (reads : Reads format layout widths window []) :
    (layout.short format).length < window.length ↔ layout.short format ≠ window := by
  have bound := (reads_short reads).2
  rw [List.length_nil, Nat.add_zero] at bound
  constructor
  · intro shorter same
    rw [same] at shorter
    omega
  · intro other
    apply Nat.lt_of_le_of_ne bound
    -- With as many bytes, every number would be in its shortest form.
    intro wide
    have shortest := shortest_of_reads reads (by rw [wide, List.length_nil, Nat.add_zero])
    exact other ((reads_eq_short_iff reads).mpr shortest)

end Wire
