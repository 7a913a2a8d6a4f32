import ResumableCsv.Proofs.Reader.Documents
import ResumableCsv.Proofs.Record.Torn
import ResumableCsv.Proofs.Resume.Table

/-!
Readers on texts that break off. A source hands out rows one by one up to a state in which it is
left; when what comes there cannot be read, or is of another length, a reader hands out the rows
before it and then an error.
-/

namespace ResumableCsv

open Record

namespace Source

/-- A source hands out these rows and is then in another state. -/
inductive Hands : Source → List Row → Source → Prop
  | nothing (source : Source) : Hands source [] source
  | row {source rest last : Source} {row : Row} {rows : List Row}
      (step : source.next = (.ok (some row), rest)) (later : Hands rest rows last) :
      Hands source (row :: rows) last

/-- An error comes next, or a row of another length. -/
def Breaks (source : Source) (length : Nat) : Prop :=
  (∃ error, source.next.1 = .error error) ∨
    ∃ row, source.next.1 = .ok (some row) ∧ row.length ≠ length

variable {source last : Source} {rows others : List Row}

theorem Hands.feeds (hands : source.Hands rows last) (feeds : last.Feeds others) :
    source.Feeds (rows ++ others) := by
  induction hands with
  | nothing => exact feeds
  | row step _ ih => exact .row step (ih feeds)

/-- Written rows are handed out, whatever stands behind them. -/
theorem hands_table {dialect : Dialect} (proper : dialect.Proper)
    (filled : ∀ row ∈ rows, row ≠ []) (tail : Bytes) :
    (Source.text dialect .utf8 ⟨tableText dialect rows ++ tail, none⟩).Hands rows
      (.text dialect .utf8 ⟨tail, none⟩) := by
  induction rows with
  | nil => exact .nothing _
  | cons row rows ih =>
    obtain ⟨first, later⟩ := List.forall_mem_cons.mp filled
    have text : tableText dialect (row :: rows) ++ tail =
        encode dialect (row.map Text.bytes) ++ (tableText dialect rows ++ tail) :=
      List.append_assoc _ _ _
    have scanned := scanRecord_encode proper (show row.map Text.bytes ≠ [] by simpa using first)
      (tableText dialect rows ++ tail)
    rw [text]
    exact .row (by simp [next, Input.nextRow, scanned, decodeRow_bytes, Except.map]) (ih later)

/-- A source of text hands out the record that comes first there. -/
theorem next_of_scanned {dialect : Dialect} {text rest : Bytes} {record : Record} {ending : Ending}
    (scanned : scanRecord dialect text = some ⟨record, ending, rest⟩) :
    (Source.text dialect .utf8 ⟨text, none⟩).next =
      ((decodeRow .utf8 record).map some, .text dialect .utf8 ⟨rest, none⟩) := by
  simp [next, Input.nextRow, scanned]

/-- A record in front of written rows is fed together with them. -/
theorem feeds_of_scanned {dialect : Dialect} (proper : dialect.Proper) {text : Bytes} {row : Row}
    {ending : Ending} (filled : ∀ other ∈ others, other ≠ [])
    (scanned : scanRecord dialect text =
      some ⟨row.map Text.bytes, ending, tableText dialect others⟩) :
    (Source.text dialect .utf8 ⟨text, none⟩).Feeds (row :: others) := by
  have step := next_of_scanned scanned
  rw [decodeRow_bytes] at step
  have later := (hands_table proper filled []).feeds (.nothing rfl)
  rw [List.append_nil, List.append_nil] at later
  exact .row step later

/-- What is left of a written row cannot be read as a row of its length, or only its last cell is
shorter. -/
theorem breaks_or_scanned {dialect : Dialect} (proper : dialect.Proper) {record : Row}
    (filled : record ≠ []) {torn : Bytes} (some_byte : torn ≠ [])
    (leading : torn <+: rowText dialect (spelling dialect (record.map Text.bytes))) :
    (Source.text dialect .utf8 ⟨torn, none⟩).Breaks record.length ∨
      ∃ front last cell, record = front ++ [last] ∧ Text.bytes cell <+: Text.bytes last ∧
        scanRecord dialect torn = some ⟨(front ++ [cell]).map Text.bytes, .inputEnd, []⟩ := by
  obtain ⟨kept, scanned, shortened⟩ :=
    scanRecord_torn proper (by simpa using filled) some_byte leading
  have step := next_of_scanned scanned
  cases decoded : decodeRow .utf8 kept with
  | error error => exact .inl (.inl ⟨error, by rw [step, decoded]; rfl⟩)
  | ok row =>
    by_cases whole : row.length = record.length
    · obtain rfl := decodeRow_eq_ok_iff.mp decoded
      obtain ⟨before, lastBytes, value, recordSplit, rowSplit, prior⟩ :=
        shortened.eq_of_length (by simpa using whole)
      obtain ⟨front, lastRow, rfl, same, ends⟩ := List.map_eq_append_iff.mp recordSplit
      obtain ⟨other, cells, rfl, same', ends'⟩ := List.map_eq_append_iff.mp rowSplit
      obtain ⟨last, rfl, rfl⟩ := List.map_eq_singleton_iff.mp ends
      obtain ⟨cell, rfl, rfl⟩ := List.map_eq_singleton_iff.mp ends'
      obtain rfl : other = front :=
        (List.map_inj_right fun _ _ => Text.bytes_injective).mp (same'.trans same.symm)
      exact .inr ⟨other, last, cell, rfl, prior, scanned⟩
    · exact .inl (.inr ⟨row, by rw [step, decoded]; rfl, whole⟩)

end Source

namespace Reader

/-- A reader that takes its rows from its source as they are. -/
structure Direct (reader : Reader) : Prop where
  ready : reader.phase = .ready
  unsplit : reader.split = none
  kept : reader.nuls = .keep
  single : reader.expanded = []
  fresh : reader.lookahead = none

variable {reader : Reader} {rest last : Source} {row : Row} {rows : List Row}

theorem Direct.nextExpanded_row (direct : reader.Direct)
    (step : reader.source.next = (.ok (some row), rest)) (fits : row.length = reader.rowLength) :
    reader.nextExpanded = (.ok (some row), { reader with source := rest }) := by
  simp [nextExpanded, direct.single, nextSourceRow, takeRaw, direct.fresh, step, check, fits,
    direct.kept, NulPolicy.apply, Except.map, splitRow, direct.unsplit]

theorem Direct.nextExpanded_breaks (direct : reader.Direct)
    (breaks : reader.source.Breaks reader.rowLength) :
    ∃ error, reader.nextExpanded.1 = .error error := by
  rcases breaks with ⟨error, failed⟩ | ⟨row, step, other⟩
  · refine ⟨error, ?_⟩
    simp [nextExpanded, direct.single, nextSourceRow, takeRaw, direct.fresh, failed]
  · refine ⟨.rowLengthMismatch reader.rowLength row.length, ?_⟩
    simp [nextExpanded, direct.single, nextSourceRow, takeRaw, direct.fresh, step, check, other,
      Except.map]

/-- The rows that come before the break are handed out, and then an error. -/
theorem Direct.rows_of_breaks (direct : reader.Direct) (unbuffered : reader.buffer = [])
    (hands : reader.source.Hands rows last) (even : ∀ row ∈ rows, row.length = reader.rowLength)
    (breaks : last.Breaks reader.rowLength) :
    ∃ error items, reader.rows = rows.map .ok ++ .error error :: items := by
  -- On the rows the source hands out, so that its state is that of the reader at every step.
  generalize same : reader.source = source at hands
  induction hands generalizing reader with
  | nothing =>
    subst same
    obtain ⟨error, failed⟩ := direct.nextExpanded_breaks breaks
    have step : reader.next =
        (some (.error error), { reader.nextExpanded.2 with phase := .exhausted }) := by
      rcases taken : reader.nextExpanded with ⟨outcome, rest⟩
      rw [taken] at failed
      obtain rfl : outcome = .error error := failed
      simp only [next, readRow, direct.ready, unbuffered, taken]
    exact ⟨error, _, rows_of_next_some step⟩
  | @row _ rest _ row _ step _ ih =>
    subst same
    obtain ⟨fits, later⟩ := List.forall_mem_cons.mp even
    have taken := direct.nextExpanded_row step fits
    have first : reader.next = (some (.ok row), { reader with source := rest }) := by
      simp only [next, readRow, direct.ready, unbuffered, taken]
    have behind : Direct { reader with source := rest } :=
      ⟨direct.ready, direct.unsplit, direct.kept, direct.single, direct.fresh⟩
    obtain ⟨error, items, whole⟩ := ih behind unbuffered later breaks rfl
    refine ⟨error, items, ?_⟩
    rw [rows_of_next_some first, whole]
    rfl

variable {options : ReaderOptions} {source : Source} {first : Row}

theorem build_eq_settle (unsplit : options.multiplex = none) (lazy : options.prebuffer = none)
    (step : source.next = (.ok (some first), rest)) (delimiter : UInt8) :
    build options source delimiter = settle (ofFirstRow options first rest delimiter) := by
  rw [build_of_first step, unsplit, lazy]
  rfl

/-- The first row can be looked at, whatever comes behind it. -/
theorem build_peek_first (headless : options.noHeaders = true)
    (unsplit : options.multiplex = none) (kept : options.nuls = .keep)
    (lazy : options.prebuffer = none) (step : source.next = (.ok (some first), rest))
    (delimiter : UInt8) :
    ∃ reader, build options source delimiter = .ok reader ∧ reader.peek.1 = .ok (some first) := by
  rw [build_eq_settle unsplit lazy step]
  refine ⟨{ source := rest, headers := none, rowLength := first.length, delimiter := delimiter,
            nuls := options.nuls, buffer := [first] }, ?_, rfl⟩
  simp [ofFirstRow, headless, settle, nextExpanded, nextSourceRow, takeRaw, check, kept,
    NulPolicy.apply, Except.map, splitRow]

/-- Building a reader fails where the first row breaks off; a later break shows when the rows
before it have been read. -/
theorem build_of_breaks (headed : options.noHeaders = false) (unsplit : options.multiplex = none)
    (kept : options.nuls = .keep) (lazy : options.prebuffer = none)
    (step : source.next = (.ok (some first), rest)) (hands : rest.Hands rows last)
    (even : ∀ row ∈ rows, row.length = first.length) (breaks : last.Breaks first.length)
    (delimiter : UInt8) :
    (∃ error, build options source delimiter = .error error) ∨
      ∃ reader error items, build options source delimiter = .ok reader ∧
        reader.rows = rows.map .ok ++ .error error :: items := by
  let start : Reader := ofFirstRow options first rest delimiter
  have start_eq : start =
      { source := rest, headers := some (.ofNames first), rowLength := first.length,
        delimiter := delimiter, nuls := options.nuls } := by
    simp [start, ofFirstRow, headed]
  have direct : start.Direct := by
    rw [start_eq]
    exact ⟨rfl, rfl, kept, rfl, rfl⟩
  rw [build_eq_settle unsplit lazy step]
  change (∃ error, settle start = .error error) ∨
    ∃ reader error items, settle start = .ok reader ∧ _
  have unbuffered : start.buffer = [] := by rw [start_eq]
  cases hands with
  | nothing =>
    obtain ⟨error, failed⟩ := direct.nextExpanded_breaks (by rw [start_eq]; exact breaks)
    refine .inl ⟨error, ?_⟩
    rcases taken : start.nextExpanded with ⟨outcome, after⟩
    rw [taken] at failed
    obtain rfl : outcome = .error error := failed
    simp only [settle, unbuffered, taken]
  | @row _ after _ row rows next later =>
    obtain ⟨fits, others⟩ := List.forall_mem_cons.mp even
    have taken : start.nextExpanded = (.ok (some row), { start with source := after }) :=
      direct.nextExpanded_row (by rw [start_eq]; exact next) (by rw [start_eq]; exact fits)
    have behind : Direct { start with source := after } :=
      ⟨direct.ready, direct.unsplit, direct.kept, direct.single, direct.fresh⟩
    obtain ⟨error, items, whole⟩ := behind.rows_of_breaks unbuffered later
      (by rw [start_eq]; exact others) (by rw [start_eq]; exact breaks)
    refine .inr ⟨{ start with source := after, buffer := [row] }, error, items, ?_, ?_⟩
    · simp only [settle, unbuffered, taken]
    · have step : Reader.next { start with source := after, buffer := [row] } =
          (some (.ok row), { start with source := after }) := by
        simp only [Reader.next, readRow, direct.ready, unbuffered]
      rw [rows_of_next_some step, whole]
      rfl

end Reader

namespace ReaderOptions

variable {options : ReaderOptions} {dialect : Dialect} (plain : options.Plain dialect)
  (proper : dialect.Proper) (lazy : options.prebuffer = none) {first : Row} (clear : first.Clear)
  {rows : List Row} (filled : ∀ row ∈ rows, row ≠ []) {tail : Bytes} {work : Workspace}
  {path : String} (named : Workspace.Plain path)
  (held : work.file? path = some (tableText dialect (first :: rows) ++ tail))

include plain proper clear filled named held

/-- Written rows are read up to where they end, whatever stands behind them. -/
theorem openPath_eq_build :
    ∃ source rest, options.openPath path work = Reader.build options source dialect.delimiter ∧
      source.next = (.ok (some first), rest) ∧
      rest.Hands rows (.text dialect .utf8 ⟨tail, none⟩) := by
  have unmarked : ¬byteOrderMark <+: tableText dialect (first :: rows) ++ tail := by
    rw [tableText, List.flatMap_cons, List.append_assoc]
    exact clear.not_mark_encode dialect _
  have opened := openPath_eq plain named held
  rw [dropMark_of_unmarked unmarked, dropMark_of_unmarked unmarked] at opened
  have hands := Source.hands_table proper (List.forall_mem_cons.mpr ⟨clear.filled, filled⟩) tail
  cases hands with
  | @row _ rest _ _ _ step later => exact ⟨_, rest, opened, step, later⟩

include lazy

theorem peek_of_torn (headless : options.noHeaders = true) :
    ∃ reader, options.openPath path work = .ok reader ∧ reader.peek.1 = .ok (some first) := by
  obtain ⟨source, rest, opened, step, _⟩ :=
    openPath_eq_build plain proper clear filled named held
  rw [opened]
  exact Reader.build_peek_first headless plain.unsplit plain.kept lazy step dialect.delimiter

variable (headed : options.noHeaders = false) (even : ∀ row ∈ rows, row.length = first.length)

include headed even

theorem openPath_of_breaks (breaks : (Source.text dialect .utf8 ⟨tail, none⟩).Breaks first.length) :
    (∃ error, options.openPath path work = .error error) ∨
      ∃ reader error items, options.openPath path work = .ok reader ∧
        reader.rows = rows.map .ok ++ .error error :: items := by
  obtain ⟨source, rest, opened, step, hands⟩ :=
    openPath_eq_build plain proper clear filled named held
  rw [opened]
  exact Reader.build_of_breaks headed plain.unsplit plain.kept lazy step hands even breaks
    dialect.delimiter

omit lazy headed in
/-- A record of the same length in front of written rows is read together with them. -/
theorem openPath_of_scanned (headless : options.noHeaders = true) {row : Row} {ending : Ending}
    {others : List Row} (later : ∀ other ∈ row :: others, other.length = first.length)
    (scanned : scanRecord dialect tail =
      some ⟨row.map Text.bytes, ending, tableText dialect others⟩) :
    ∃ reader, options.openPath path work = .ok reader ∧
      reader.rows = (first :: rows ++ row :: others).map .ok := by
  obtain ⟨source, rest, opened, step, hands⟩ :=
    openPath_eq_build plain proper clear filled named held
  have positive : 0 < first.length := List.length_pos_iff.mpr clear.filled
  have others_filled : ∀ other ∈ others, other ≠ [] := by
    intro other member
    rw [← List.length_pos_iff, later other (by simp [member])]
    exact positive
  obtain ⟨reader, built, handed, _⟩ := Reader.build_of_feeds plain.unsplit plain.kept step
    (hands.feeds (Source.feeds_of_scanned proper others_filled scanned))
    (List.forall_mem_append.mpr ⟨even, later⟩) dialect.delimiter
  simp only [headless, if_true] at handed
  exact ⟨reader, opened.trans built, handed⟩

end ReaderOptions

end ResumableCsv
