import Mathlib.Data.List.Chain
import Mathlib.Data.Prod.Lex
import Zmux.Proofs.FrameWindow
import Zmux.Proofs.FirstRecord

/-! An acknowledgement is a sorted snapshot, read without trust in the count it announces. -/

namespace Zmux

open Wire

/-- The pipe and the lane of an entry, ordered by the pipe first. -/
def AckEntry.key (entry : AckEntry) : Nat ×ₗ Nat := toLex (entry.pipe, entry.lane)

variable {entries : List AckEntry}

/-- The comparison of the code is the order of the keys. -/
theorem notAbove_iff {e last : AckEntry} : e.notAbove last ↔ e.key ≤ last.key := by
  rw [AckEntry.key, AckEntry.key, Prod.Lex.toLex_le_toLex, AckEntry.notAbove]

/-- Entries that are each above the one before are above all the earlier ones. -/
theorem ascending_iff : Ascending entries ↔ (entries.map AckEntry.key).Pairwise (· < ·) := by
  -- The order is transitive, so neighbours are enough.
  rw [← List.isChain_iff_pairwise, List.isChain_map, Ascending]
  simp only [notAbove_iff, not_le]

section Count

/-- The loop of `readEntries`, with the number of entries it has read when it ends. -/
def countedEntries : Nat → Option AckEntry → Bytes → Nat × Except Failure (List AckEntry × Bytes)
  | 0, _, window => (0, .ok ([], window))
  | count + 1, last, window =>
    match readEntry.on window with
    | .error fault => (0, .error fault)
    | .ok (e, rest) =>
      -- An entry that is out of order has been read, though it is refused.
      if ∃ before ∈ last, e.notAbove before then
        (1, .error (.decodeError FE
          "PIPE_ACK entries not in strictly increasing (Pipe ID, Lane) order"))
      else
        let further := countedEntries count (some e) rest
        (further.1 + 1, further.2.map fun found => (e :: found.1, found.2))

/-- Counting the entries does not change what the loop reads. -/
theorem countedEntries_outcome (count : Nat) (last : Option AckEntry) (window : Bytes) :
    (countedEntries count last window).2 = (readEntries count last).on window := by
  -- Both loops read one entry, refuse it or keep it, and go on with the rest.
  induction count generalizing last window with
  | zero => rfl
  | succ count ih =>
    rw [countedEntries, readEntries, Scan.on_bind]
    cases readEntry.on window with
    | error fault => rfl
    | ok answer =>
      rcases answer with ⟨e, rest⟩
      simp only [ok_bind, Scan.on_bind, Scan.on_failIf, Scan.on_pure, raiseIf]
      by_cases disordered : ∃ before ∈ last, e.notAbove before
      · rw [if_pos disordered, if_pos disordered]
        rfl
      · rw [if_neg disordered, if_neg disordered]
        simp only [map_ok, ok_bind, ih]
        cases (readEntries count (some e)).on rest <;> rfl

/-- A loop that ends well has read as many entries as were announced, and counted each of them. -/
theorem countedEntries_whole {count : Nat} {last : Option AckEntry} {window left : Bytes}
    (whole : (countedEntries count last window).2 = .ok (entries, left)) :
    (countedEntries count last window).1 = entries.length ∧ entries.length = count := by
  -- The induction is on the count, and every entry that is kept is counted once.
  induction count generalizing last window entries with
  | zero =>
    cases whole
    exact ⟨rfl, rfl⟩
  | succ count ih =>
    rw [countedEntries] at whole ⊢
    cases read : readEntry.on window with
    | error fault =>
      rw [read] at whole
      cases whole
    | ok answer =>
      rcases answer with ⟨e, rest⟩
      simp only [read] at whole ⊢
      split at whole
      · cases whole
      · rename_i ordered
        rw [if_neg ordered]
        obtain ⟨⟨others, behind⟩, further, same⟩ := map_eq_ok.mp whole
        cases same
        obtain ⟨counted, long⟩ := ih further
        exact ⟨by rw [counted, List.length_cons], by rw [List.length_cons, long]⟩

/-- Integers take at least one byte each. -/
theorem nums_length {values : List Nat} {window left : Bytes}
    (starts : Starts varintFormat (nums values) window left) :
    values.length + left.length ≤ window.length := by
  -- The induction is on the numbers, and every form has at least one byte.
  induction values generalizing window with
  | nil =>
    rw [starts_done_iff.mp starts]
    simp
  | cons value values ih =>
    rw [nums, starts_num_begins] at starts
    rcases starts with ⟨behind, begins, others⟩
    have first := begins_length begins
    have rest := ih others
    rw [List.length_cons]
    omega

/-- Whatever count is announced, no more entries are read than there are bytes for. -/
theorem countedEntries_le (count : Nat) (last : Option AckEntry) (window : Bytes) :
    4 * (countedEntries count last window).1 ≤ window.length := by
  -- The induction is on the count, and every entry that is read takes four bytes.
  induction count generalizing last window with
  | zero => exact Nat.zero_le _
  | succ count ih =>
    rw [countedEntries]
    cases read : readEntry.on window with
    | error fault => exact Nat.zero_le _
    | ok answer =>
      rcases answer with ⟨e, rest⟩
      have four := nums_length (readEntry_on.mp read)
      have long : e.values.length = 4 := rfl
      have further := ih (some e) rest
      simp only
      split
      · simp only
        omega
      · simp only
        omega

end Count

/-- The bytes that an acknowledgement begins with. -/
def pipeAckPrefix : Bytes := typePrefix .pipeAck

/-- The row that the registry has for acknowledgements. -/
def ackRow : FrameMeta :=
  ⟨.pipeAck, 0x0B2B3EEB, 0x0B2B3EEB, .zmux, .any [.zmuxMultipath, .zmuxPipeAck]⟩

variable {enabled : Gates} {limit : Option Nat} {rest : Bytes}

/-- The type of an acknowledgement has four bytes in its shortest form. -/
theorem ackType : VarintLegal 0x0B2B3EEB 4 ∧ varintShortest 0x0B2B3EEB = 4 ∧
    varintForm 0x0B2B3EEB 4 = pipeAckPrefix :=
  ⟨⟨.inr (.inr (.inl rfl)), by decide⟩, by decide, by decide +kernel⟩

/-- Behind its type an acknowledgement is read, once a gate of it is in effect. -/
theorem decodeFrame_ack : decodeFrame (pipeAckPrefix ++ rest) 0 (pipeAckPrefix ++ rest).length
    enabled limit = (do
      let _ ← checkGate ackRow enabled
      (readAck.on rest).map fun answer => (answer.1, 4 + rest.length - answer.2.length)) := by
  -- The registry has the type in its shortest form, and neither check of the span is on it.
  rcases ackType with ⟨legal, four, opening⟩
  rw [← four] at legal
  have known : frameByType 0x0B2B3EEB = some ackRow := by decide
  have checked : checkType 0x0B2B3EEB enabled = checkGate ackRow enabled >>= fun _ =>
      pure ackRow := by
    rw [checkType, known]
    rfl
  have read := @decodeFrame_typed enabled limit _ rest legal (by decide)
  rw [four, opening, checked] at read
  rw [read]
  cases checkGate ackRow enabled with
  | error fault => rfl
  | ok _ =>
    show (readAck.on rest >>= _) = _
    cases readAck.on rest <;> rfl

/-- An acknowledgement that is not decoded is a frame encoding error. -/
theorem decodeFrame_ack_faults : Faults
    (decodeFrame (pipeAckPrefix ++ rest) 0 (pipeAckPrefix ++ rest).length enabled limit)
    fun fault => ∃ reason, fault = .decodeError FE reason := by
  -- The gate and the fields are refused with the same code.
  rw [decodeFrame_ack]
  refine Faults.bind (faults_raiseIf fun _ => ⟨_, rfl⟩) fun _ _ => ?_
  refine Faults.map _ (Faults.mono (readAck_faults rest) ?_)
  intro fault listed
  rcases listed with ⟨reason, -, rfl⟩
  exact ⟨reason, rfl⟩

/-- An entry is sent as four integers. -/
theorem values_length (entries : List AckEntry) :
    (entries.flatMap AckEntry.values).length = 4 * entries.length := by
  -- Each entry adds its own four.
  induction entries with
  | nil => rfl
  | cons entry entries ih =>
    have four : entry.values.length = 4 := rfl
    rw [List.flatMap_cons, List.length_append, ih, four, List.length_cons]
    omega

/-- Entries read are a sorted snapshot, in which every entry takes four bytes. -/
theorem readAck_snapshot {window left : Bytes}
    (read : readAck.on window = .ok (.pipeAck entries, left)) :
    entries ≠ [] ∧ (entries.map AckEntry.key).Pairwise (· < ·) ∧
    4 * entries.length + left.length < window.length := by
  -- Entries that are read are spelled behind their count, in the order that is checked.
  obtain ⟨_, same, ⟨some, ascending⟩, starts⟩ := readAck_on.mp read
  cases same
  have long := nums_length starts
  rw [List.length_cons, values_length] at long
  exact ⟨some, ascending_iff.mp ascending, by omega⟩

/-- An acknowledgement is decoded from a window that begins with its type. -/
theorem decodeFrame_ack_ok {window : Bytes} {next : Nat}
    (decoded : decodeFrame window 0 window.length enabled limit = .ok (.pipeAck entries, next)) :
    ∃ rest left, window = pipeAckPrefix ++ rest ∧
      readAck.on rest = .ok (.pipeAck entries, left) ∧ next = 4 + rest.length - left.length := by
  -- The frame is spelled behind its type, so its fields are read there.
  rcases decodeFrame_eq_ok.mp decoded with ⟨left, placed, -⟩
  obtain ⟨rest, rfl, -⟩ := (typed_layout_iff rfl).mp placed.spelled
  have opening : _ = pipeAckPrefix := typePrefix_eq placed.decoded rfl rfl
  rw [opening] at decoded ⊢
  rw [decodeFrame_ack] at decoded
  obtain ⟨_, -, read⟩ := bind_eq_ok.mp decoded
  obtain ⟨⟨_, behind⟩, found, same⟩ := map_eq_ok.mp read
  cases same
  exact ⟨rest, behind, rfl, found, rfl⟩

/-- Numbers of one layout are spelled by a window in one way only. -/
theorem nums_unique {values others : List Nat} {window left tail : Bytes}
    (long : values.length = others.length) (first : Starts varintFormat (nums values) window left)
    (second : Starts varintFormat (nums others) window tail) : values = others := by
  -- The induction is on both lists, whose first numbers have forms that are told apart.
  induction values generalizing others window with
  | nil => exact (List.length_eq_zero_iff.mp long.symm).symm
  | cons value values ih =>
    cases others with
    | nil => cases long
    | cons other others =>
      rw [nums, starts_num_iff] at first second
      rcases first with ⟨_, _, legal, rfl, behind⟩
      rcases second with ⟨_, _, lawful, same, after⟩
      obtain ⟨rfl, -, rfl⟩ := varintFormat.decodable legal lawful same
      rw [ih (Nat.succ.inj long) behind after]

/-- Entries are known from their integers. -/
theorem values_injective {first second : List AckEntry}
    (same : first.flatMap AckEntry.values = second.flatMap AckEntry.values) : first = second := by
  -- Each entry is the four integers at its place.
  induction first generalizing second with
  | nil =>
    have empty := congrArg List.length same
    rw [values_length, values_length] at empty
    exact (List.length_eq_zero_iff.mp (by rw [List.length_nil] at empty; omega)).symm
  | cons entry first ih =>
    cases second with
    | nil => cases same
    | cons other second =>
      simp only [List.flatMap_cons, AckEntry.values, List.cons_append, List.nil_append,
        List.cons.injEq] at same
      rcases entry with ⟨pipe, lane, position, delay⟩
      rcases other with ⟨_, _, _, _⟩
      rcases same with ⟨rfl, rfl, rfl, rfl, rest⟩
      rw [ih rest]

/-- An announced count is that of the entries, so more than there is room for are not decoded. -/
theorem readAck_count {count width : Nat} {f : Frame} {left : Bytes}
    (legal : VarintLegal count width)
    (read : readAck.on (varintForm count width ++ rest) = .ok (f, left)) :
    ∃ entries, f = .pipeAck entries ∧ entries.length = count ∧
      Starts varintFormat (nums (entries.flatMap AckEntry.values)) rest left := by
  -- The bytes begin with the count that was announced and with that of the entries.
  obtain ⟨entries, rfl, -, starts⟩ := readAck_on.mp read
  rw [nums, starts_num_iff] at starts
  rcases starts with ⟨_, _, lawful, same, behind⟩
  obtain ⟨rfl, -, rfl⟩ := varintFormat.decodable legal lawful same
  exact ⟨entries, rfl, rfl, behind⟩

/-- An acknowledgement that announces more entries than there are bytes for is refused. -/
theorem decodeFrame_ack_overcount {buf : Bytes} {pos stop count width : Nat} (ordered : pos < stop)
    (within : stop ≤ buf.length) (legal : VarintLegal count width)
    (window : slice buf pos stop = pipeAckPrefix ++ (varintForm count width ++ rest))
    (many : rest.length < 4 * count) : ∃ reason,
      decodeFrame buf pos stop enabled limit = .error (.decodeError FE reason) := by
  cases read : decodeFrame buf pos stop enabled limit with
  | ok answer =>
    -- A decoded frame would have as many entries as are announced, each of at least four bytes.
    rcases answer with ⟨f, next⟩
    obtain ⟨inner, alone, -⟩ := decodeFrame_alone ordered within read
    rw [window, decodeFrame_ack] at alone
    obtain ⟨_, -, found⟩ := bind_eq_ok.mp alone
    obtain ⟨⟨_, left⟩, entries, same⟩ := map_eq_ok.mp found
    cases same
    obtain ⟨entries, rfl, rfl, starts⟩ := readAck_count legal entries
    have long := nums_length starts
    rw [values_length] at long
    omega
  | error fault =>
    -- The type lies in the window, which is refused in place as it is on its own.
    rcases ackType with ⟨typed, -, opening⟩
    have inside := @decodeVarint_at _ _ (varintForm count width ++ rest) typed
    rw [opening, ← window] at inside
    have agree := @decodeFrame_inside enabled limit _ _ _ _ _ _ (Nat.le_of_lt ordered) within inside
    have faults := @decodeFrame_ack_faults enabled limit (varintForm count width ++ rest)
    rw [← window, slice_length within] at faults
    have same := Agree.sameOutcome agree (Faults.map _ (faults.mono fun _ listed => ⟨_, listed⟩))
    rcases same with ⟨_, none, -⟩ | ⟨code, reason, other, here, there⟩
    · rw [read] at none
      cases none
    · obtain ⟨_, coded⟩ := faults _ (map_eq_error.mp there)
      cases coded
      rw [read] at here
      cases here
      exact ⟨reason, rfl⟩

/-- Integers are written only if they are in range. -/
theorem vs_range {values : List Nat} {bytes : Bytes} (written : vs values = .ok bytes) :
    ∀ value ∈ values, value ≤ maxVarint := by
  -- The induction is on the integers, which are written one by one.
  induction values generalizing bytes with
  | nil => simp
  | cons value values ih =>
    simp only [vs, v, bind_eq_ok, encodeVarint_eq_ok] at written
    rcases written with ⟨_, ⟨small, -⟩, _, others, -⟩
    exact List.forall_mem_cons.mpr ⟨small, ih others⟩

/-- Integers in range are written as a spelling of them. -/
theorem vs_sent {values : List Nat} {bytes : Bytes} (written : vs values = .ok bytes) :
    Starts varintFormat (nums values) bytes [] := by
  -- Integers are written in their shortest forms, which spell them.
  have fits := nums_fits (vs_range written)
  rw [vs_eq_ok fits, Except.ok.injEq] at written
  have starts := Layout.starts_short fits []
  rwa [List.append_nil, written] at starts

/-- An acknowledgement is written as its type and the integers of its entries. -/
theorem encodeFrame_ack : encodeFrame (.pipeAck entries) =
    (vs (entries.length :: entries.flatMap AckEntry.values)).map (pipeAckPrefix ++ ·) := by
  -- The type is written first, and then the count in front of the fields.
  rcases ackType with ⟨-, four, opening⟩
  have typed : typeCode (.pipeAck entries) = .ok 0x0B2B3EEB := rfl
  have head : encodeVarint (0x0B2B3EEB : Nat) = .ok pipeAckPrefix := by
    rw [encodeVarint_shortest (by decide), four, opening]
  simp only [encodeFrame, typed, ok_bind, head, encodeFields]
  cases vs (entries.length :: entries.flatMap AckEntry.values) <;> rfl

/-- An acknowledgement is written exactly when its count and its fields are in range. -/
theorem encodeFrame_ack_iff : (∃ bytes, encodeFrame (.pipeAck entries) = .ok bytes) ↔
    entries.length ≤ maxVarint ∧ ∀ entry ∈ entries, ∀ value ∈ entry.values, value ≤ maxVarint := by
  -- What is written are the count and the fields of every entry.
  have fields : (entries.length ≤ maxVarint ∧
      ∀ entry ∈ entries, ∀ value ∈ entry.values, value ≤ maxVarint) ↔
      ∀ value ∈ entries.length :: entries.flatMap AckEntry.values, value ≤ maxVarint := by
    simp only [List.forall_mem_cons, List.mem_flatMap, forall_exists_index, and_imp]
    constructor
    · intro range
      exact ⟨range.1, fun value entry member listed => range.2 entry member value listed⟩
    · intro range
      exact ⟨range.1, fun entry member value listed => range.2 value entry member listed⟩
  rw [fields, encodeFrame_ack]
  simp only [map_eq_ok]
  constructor
  · intro written
    rcases written with ⟨_, _, written, -⟩
    exact vs_range written
  · intro range
    exact ⟨_, _, vs_eq_ok (nums_fits range), rfl⟩

/-- What an acknowledgement is written as is decoded if it is in order, and refused otherwise. -/
theorem decodeFrame_written_ack (some : entries ≠ []) {bytes : Bytes}
    (written : encodeFrame (.pipeAck entries) = .ok bytes) :
    ((entries.map AckEntry.key).Pairwise (· < ·) →
      decodeFrame bytes 0 bytes.length = .ok (.pipeAck entries, bytes.length)) ∧
    (¬ (entries.map AckEntry.key).Pairwise (· < ·) →
      ∃ reason, decodeFrame bytes 0 bytes.length = .error (.decodeError FE reason)) := by
  constructor
  · intro sorted
    have range := encodeFrame_ack_iff.mp ⟨_, written⟩
    have formed : (Frame.pipeAck entries).WellFormed :=
      ⟨some, ascending_iff.mpr sorted, range.1, range.2⟩
    obtain ⟨same, encoded, decoded⟩ := formed.received rfl rfl id
    rw [written, Except.ok.injEq] at encoded
    rw [encoded]
    exact decoded
  · intro unsorted
    rw [encodeFrame_ack] at written
    obtain ⟨rest, sent, rfl⟩ := map_eq_ok.mp written
    have spelled := vs_sent sent
    cases read : decodeFrame (pipeAckPrefix ++ rest) 0 (pipeAckPrefix ++ rest).length with
    | error fault =>
      obtain ⟨reason, rfl⟩ := decodeFrame_ack_faults _ read
      exact ⟨reason, rfl⟩
    | ok answer =>
      -- What is decoded has the entries that were written, which are not in order.
      rcases answer with ⟨f, next⟩
      rw [decodeFrame_ack] at read
      obtain ⟨_, -, found⟩ := bind_eq_ok.mp read
      obtain ⟨⟨_, left⟩, taken, same⟩ := map_eq_ok.mp found
      cases same
      obtain ⟨width, behind, legal, rfl, values⟩ := starts_num_iff.mp spelled
      obtain ⟨others, rfl, long, starts⟩ := readAck_count legal taken
      have lengths : (others.flatMap AckEntry.values).length =
          (entries.flatMap AckEntry.values).length := by
        rw [values_length, values_length, long]
      have equal := values_injective (nums_unique lengths starts values)
      rw [equal] at taken
      exact absurd (readAck_snapshot taken).2.1 unsorted

/--
Decoding an acknowledgement gives a sorted snapshot whose size is bounded by its bytes.

Its keys increase from every entry to every later one, and each entry takes four bytes of the frame.
A count beyond the bytes is refused, and the loop reads no more entries than there are bytes for.
Where the loop ends well, the entries that it has counted are the ones that it returns.
Entries that are written are decoded if they are in order, and refused otherwise.
-/
theorem pipeAck_snapshot :
    (∀ enabled limit (buf : Bytes) pos stop entries next, pos < stop → stop ≤ buf.length →
      decodeFrame buf pos stop enabled limit = .ok (.pipeAck entries, next) →
      entries ≠ [] ∧ (entries.map AckEntry.key).Pairwise (· < ·) ∧
      (entries.map AckEntry.key).Nodup ∧ 4 * entries.length ≤ next - pos) ∧
    (∀ enabled limit (buf : Bytes) pos stop count width rest, pos < stop → stop ≤ buf.length →
      VarintLegal count width →
      slice buf pos stop = pipeAckPrefix ++ (varintForm count width ++ rest) →
      rest.length < 4 * count →
      (∃ reason, decodeFrame buf pos stop enabled limit =
        .error (.decodeError .frameEncodingError reason)) ∧
      (countedEntries count none rest).2 = (readEntries count none).on rest ∧
      4 * (countedEntries count none rest).1 ≤ rest.length) ∧
    (∀ count last window entries left, (countedEntries count last window).2 = .ok (entries, left) →
      (countedEntries count last window).1 = entries.length ∧ entries.length = count) ∧
    (∀ entries : List AckEntry, entries ≠ [] →
      ((∃ bytes, encodeFrame (.pipeAck entries) = .ok bytes) ↔ entries.length ≤ maxVarint ∧
        ∀ entry ∈ entries, ∀ value ∈ entry.values, value ≤ maxVarint) ∧
      ∀ bytes, encodeFrame (.pipeAck entries) = .ok bytes →
        ((entries.map AckEntry.key).Pairwise (· < ·) →
          decodeFrame bytes 0 bytes.length = .ok (.pipeAck entries, bytes.length)) ∧
        (¬ (entries.map AckEntry.key).Pairwise (· < ·) →
          ∃ reason, decodeFrame bytes 0 bytes.length =
            .error (.decodeError .frameEncodingError reason))) := by
  refine ⟨?_, ?_, fun _ _ _ _ _ => countedEntries_whole, ?_⟩
  · intro enabled limit buf pos stop entries next ordered within decoded
    obtain ⟨inner, alone, rfl⟩ := decodeFrame_alone ordered within decoded
    obtain ⟨rest, left, -, read, rfl⟩ := decodeFrame_ack_ok alone
    obtain ⟨some, sorted, room⟩ := readAck_snapshot read
    -- A key that occurs twice would be below itself.
    have distinct : (entries.map AckEntry.key).Nodup := sorted.imp fun below => ne_of_lt below
    exact ⟨some, sorted, distinct, by omega⟩
  · intro enabled limit buf pos stop count width rest ordered within legal window many
    exact ⟨decodeFrame_ack_overcount ordered within legal window many,
      countedEntries_outcome _ _ _, countedEntries_le _ _ _⟩
  · intro entries some
    exact ⟨encodeFrame_ack_iff, fun bytes written => decodeFrame_written_ack some written⟩

end Zmux
