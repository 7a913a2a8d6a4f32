import ResumableCsv.Proofs.Backward.Open
import ResumableCsv.Proofs.Resume.Table

/-!
Written tables from the end: the rows come last one first, each with the length of the text in front
of it, and nothing of them changes but the line breaks inside their cells.
-/

namespace ResumableCsv

open Record

/-- A row as it comes out from the end. -/
def Row.Folds (row folded : Row) : Prop :=
  folded.map Text.bytes = (row.map Text.bytes).map foldBreaks

theorem Row.Folds.bytes_cell {row folded : Row} (folds : row.Folds folded) (column : Nat) :
    Text.bytes (folded.cell column) = foldBreaks (Text.bytes (row.cell column)) := by
  have cells := congrArg (fun fields => fields[column]?) folds
  simp only [List.getElem?_map, Option.map_map] at cells
  unfold Row.cell
  cases found : row[column]? with
  | none =>
    rw [found, Option.map_none, Option.map_eq_none_iff] at cells
    rw [cells]
    rfl
  | some cell =>
    rw [found, Option.map_some] at cells
    obtain ⟨other, there, same⟩ := Option.map_eq_some_iff.mp cells
    rw [there]
    exact same

/-- A cell comes out as it is when there are no line breaks of two characters in it. -/
theorem Row.Folds.cell_eq_iff {row folded : Row} (folds : row.Folds folded) {column : Nat} :
    folded.cell column = row.cell column ↔ ¬crlf <:+: Text.bytes (row.cell column) := by
  rw [← foldBreaks_eq_self_iff, ← folds.bytes_cell column]
  exact ⟨congrArg Text.bytes, fun same => Text.bytes_injective same⟩

theorem Row.Folds.cell_eq {row folded : Row} (folds : row.Folds folded) {column : Nat}
    (unbroken : ¬crlf <:+: Text.bytes (row.cell column)) :
    folded.cell column = row.cell column :=
  folds.cell_eq_iff.mpr unbroken

/-- The line a row is written on. -/
def Row.block (dialect : Dialect) (row : Row) : Block :=
  ⟨rowText dialect (spelling dialect (row.map Text.bytes)), false⟩

theorem Row.text_block_ne_nil (dialect : Dialect) {row : Row} (filled : row ≠ []) :
    (row.block dialect).text ≠ [] :=
  rowText_spelling_ne_nil dialect (by simpa using filled)

theorem blocksText_rows {dialect : Dialect} {rows : List Row} (filled : ∀ row ∈ rows, row ≠ []) :
    blocksText (rows.map (Row.block dialect)) = tableText dialect rows := by
  induction rows with
  | nil => rfl
  | cons row rows ih =>
    have first : row.map Text.bytes ≠ [] := by simpa using filled row (by simp)
    have later := ih fun other member => filled other (by simp [member])
    rw [blocksText] at later
    rw [List.map_cons, blocksText, List.flatMap_cons, later, tableText, tableText,
      List.flatMap_cons, encode_eq dialect first]
    simp [Row.block, Block.back]

/-- The last block that is not blank stands at the same place however blanks follow it. -/
theorem eq_concat_of_append_blanks {blocks blanks before others : List Block} {block : Block}
    (same : blocks ++ blanks = before ++ block :: others)
    (written : ∀ one ∈ blocks, one.text ≠ []) (blank : ∀ one ∈ blanks, one.text = [])
    (here : block.text ≠ []) (behind : ∀ one ∈ others, one.text = []) :
    blocks = before ++ [block] := by
  rcases List.append_eq_append_iff.mp same with ⟨more, _, tail⟩ | ⟨more, front, tail⟩
  · exact absurd (blank block (by simp [tail])) here
  · rcases more with _ | ⟨first, more⟩
    · exact absurd (blank block (by rw [List.nil_append] at tail; simp [← tail])) here
    · obtain ⟨rfl, rest⟩ := List.cons.inj tail
      rcases more with _ | ⟨next, more⟩
      · exact front
      · exact absurd (behind next (by simp [rest])) (written next (by simp [front]))

namespace BackwardReader

/-- A reader that has these rows of a table in front of it, the first of them at an offset. -/
structure Rests (reader : BackwardReader) (dialect : Dialect) (floor : Nat) (rows : List Row) :
    Prop where
  plain : reader.Plain
  dialect_eq : reader.dialect = dialect
  floor_eq : reader.tail.floor = floor
  filled : ∀ row ∈ rows, row ≠ []
  holds : ∃ blanks, (∀ blank ∈ blanks, blank.text = []) ∧
    reader.Holds (rows.map (Row.block dialect) ++ blanks)

variable {reader : BackwardReader} {dialect : Dialect} {floor : Nat} {rows : List Row} {row : Row}

theorem parse_block (plain : reader.Plain) (clear : row.Clear) :
    ∃ folded, reader.parse (foldBreaks (row.block reader.dialect).text) = .ok folded ∧
      row.Folds folded := by
  have unmarked : ¬byteOrderMark <+: (row.block reader.dialect).text := by
    intro marked
    exact not_mark_row clear.filled clear.unmarked [] (marked.trans (List.prefix_append _ _))
  obtain ⟨folded, same⟩ := exists_folded_row row
  have parsed := parse_of_dropMark plain (fair_spelling reader.dialect (row.map Text.bytes))
    (Row.text_block_ne_nil reader.dialect clear.filled) (dropMark_of_unmarked unmarked)
  rw [content_spelling, ← same, decodeRow_bytes] at parsed
  exact ⟨folded, parsed, same⟩

theorem Rests.nextRecord_nil (rests : reader.Rests dialect floor []) :
    reader.nextRecord.1 = .ok none := by
  obtain ⟨blanks, blank, holds⟩ := rests.holds
  have apart : carriageReturn ≠ reader.dialect.quote := rests.plain.proper.ne_quote rfl
  rcases nextRecord_of_holds apart.symm holds with
    ⟨_, ended⟩ | ⟨before, block, _, _, split, _, written, _⟩
  · exact ended
  · rw [List.map_nil, List.nil_append] at split
    exact absurd (blank block (by simp [split])) written

/-- The last row comes next, with the offset it starts at. -/
theorem Rests.nextRecord_concat (rests : reader.Rests dialect floor (rows ++ [row]))
    (clear : row.Clear) :
    ∃ folded rest, reader.nextRecord =
        (.ok (some (floor + (tableText dialect rows).length, folded)), rest) ∧
      row.Folds folded ∧ rest.Rests dialect floor rows := by
  obtain rfl := rests.dialect_eq
  obtain ⟨blanks, blank, holds⟩ := rests.holds
  have apart : carriageReturn ≠ reader.dialect.quote := rests.plain.proper.ne_quote rfl
  have written : ∀ block ∈ (rows ++ [row]).map (Row.block reader.dialect), block.text ≠ [] := by
    intro block member
    obtain ⟨origin, there, rfl⟩ := List.mem_map.mp member
    exact Row.text_block_ne_nil reader.dialect (rests.filled origin there)
  rcases nextRecord_of_holds apart.symm holds with
    ⟨nothing, _⟩ | ⟨before, block, others, left, split, skipped, here, step, remaining, still⟩
  · exact absurd (nothing (row.block reader.dialect) (by simp))
      (written (row.block reader.dialect) (by simp))
  · have last := eq_concat_of_append_blanks split written blank here skipped
    rw [List.map_append, List.map_singleton] at last
    obtain ⟨rfl, single⟩ := List.append_inj' last rfl
    obtain rfl := List.head_eq_of_cons_eq single
    have filled : ∀ one ∈ rows, one ≠ [] := fun one member => rests.filled one (by simp [member])
    obtain ⟨folded, parsed, folds⟩ := parse_block rests.plain clear
    rw [parsed, blocksText_rows filled, rests.floor_eq] at step
    exact ⟨folded, _, step, folds, ⟨rests.plain.proper, rests.plain.kept, rests.plain.decoded⟩,
      rfl, still.trans rests.floor_eq, filled, [], by simp, by simpa using remaining⟩

/-- What was opened on a table has all its rows in front of it. -/
theorem Opened.rests {headers : Option Headers} {content : Bytes} (proper : dialect.Proper)
    (opened : reader.Opened dialect headers content (tableText dialect rows))
    (filled : ∀ row ∈ rows, row ≠ []) :
    reader.Rests dialect (content.length - (tableText dialect rows).length) rows := by
  have whole : Whole dialect.quote (rows.map (Row.block dialect)) := by
    intro block member
    obtain ⟨row, _, rfl⟩ := List.mem_map.mp member
    exact .inr (framed_rowText proper (fair_spelling dialect _))
  have floor := opened.floor_eq
  refine ⟨opened.plain proper, opened.dialect_eq, by omega, filled, [⟨[], false⟩], by simp,
    opened.running, ?_, ?_⟩
  · rw [opened.dialect_eq]
    intro block member
    rcases List.mem_append.mp member with there | here
    · exact whole block there
    · rw [List.mem_singleton.mp here]
      exact .inl rfl
  · rw [opened.data_eq, dropLast_blocksText_concat, blocksText_rows filled]
    simp [Block.back]

end BackwardReader

namespace BackwardOptions

theorem openPath_of_openContent {options : BackwardOptions} {dialect : Dialect}
    (plain : options.Plain dialect) {work : Workspace} {path : String}
    (named : Workspace.Plain path) {content : Bytes} (held : work.file? path = some content)
    {reader : BackwardReader}
    (opened : options.openContent (some dialect.delimiter) content = .ok reader) :
    options.openPath path work = .ok reader := by
  simp [openPath, Workspace.readUnpacked_of_plain named held, Outcome.mapError_ok, Outcome.ok_bind,
    plain.delimiter_eq, opened]

variable {options : BackwardOptions} {dialect : Dialect} (plain : options.Plain dialect)
  (proper : dialect.Proper) {first : Row} {rows : List Row} (clear : first.Clear)
  (filled : ∀ row ∈ rows, row ≠ []) {work : Workspace} {path : String}
  (named : Workspace.Plain path)
  (held : work.file? path = some (tableText dialect (first :: rows)))

include plain proper clear filled named held

/-- A written table is opened from its end, behind its header row. -/
theorem openPath_of_table (headed : options.noHeaders = false) :
    ∃ reader, options.openPath path work = .ok reader ∧
      reader.headers = some (.ofNames first) ∧
      reader.Rests dialect (tableText dialect [first]).length rows := by
  have text : tableText dialect (first :: rows) =
      tableText dialect [first] ++ tableText dialect rows := tableText_append dialect [first] rows
  have scanned : scanRecord dialect (dropMark (dropMark (tableText dialect (first :: rows)))) =
      some ⟨first.map Text.bytes, .terminator, tableText dialect rows⟩ := by
    have unmarked := clear.not_mark_table dialect rows
    rw [dropMark_of_unmarked unmarked, dropMark_of_unmarked unmarked, text, tableText,
      List.flatMap_singleton]
    exact scanRecord_encode proper (by simpa using clear.filled) (tableText dialect rows)
  obtain ⟨reader, opened, state⟩ :=
    openContent_of_header plain headed (tableText_ne_nil dialect (by simp)) scanned
  have rests := state.rests proper filled
  rw [text, List.length_append, Nat.add_sub_cancel] at rests
  exact ⟨reader, openPath_of_openContent plain named held opened, state.headers_eq, rests⟩

theorem openPath_of_headless_table (headless : options.noHeaders = true) :
    ∃ reader, options.openPath path work = .ok reader ∧ reader.headers = none ∧
      reader.Rests dialect 0 (first :: rows) := by
  obtain ⟨reader, opened, state⟩ :=
    openContent_of_headless plain headless (tableText_ne_nil dialect (List.cons_ne_nil first rows))
  rw [dropMark_of_unmarked (clear.not_mark_table dialect rows)] at state
  have rests := state.rests proper (List.forall_mem_cons.mpr ⟨clear.filled, filled⟩)
  rw [Nat.sub_self] at rests
  exact ⟨reader, openPath_of_openContent plain named held opened, state.headers_eq, rests⟩

end BackwardOptions

namespace BackwardReader

variable {options : BackwardOptions} {reader : BackwardReader} {dialect : Dialect} {floor : Nat}
  {rows : List Row} {work : Workspace} {path : String}
  (opened : options.openPath path work = .ok reader) {column : Nat}
  (resolved : reader.requiredColumn (.position column) = .ok column)

include opened resolved

theorem lastCell_of_rests_nil (rests : reader.Rests dialect floor []) :
    options.lastCell path (.position column) work = .ok none := by
  have ended : reader.readRow.1 = .ok none := by
    change reader.nextRecord.1.map (·.map Prod.snd) = .ok none
    rw [rests.nextRecord_nil]
    rfl
  simp only [BackwardOptions.lastCell, BackwardOptions.openFilled, opened, Outcome.ok_bind,
    resolved, ended]
  rfl

/-- The last cell of a column is that of the last row, but for its line breaks. -/
theorem lastCell_of_rests_concat {row : Row} (rests : reader.Rests dialect floor (rows ++ [row]))
    (clear : row.Clear) (inside : column < row.length) :
    ∃ folded : Row, row.Folds folded ∧
      options.lastCell path (.position column) work = .ok (some (folded.cell column)) := by
  obtain ⟨folded, rest, step, folds, _⟩ := rests.nextRecord_concat clear
  have taken : reader.readRow.1 = .ok (some folded) := by
    rw [readRow, step]
    rfl
  have length : folded.length = row.length := by simpa using congrArg List.length folds
  have there : ¬(reader.headers.isNone ∧ folded.length ≤ column) := by
    rw [length]
    omega
  refine ⟨folded, folds, ?_⟩
  simp only [BackwardOptions.lastCell, BackwardOptions.openFilled, opened, Outcome.ok_bind,
    resolved, taken, if_neg there]
  rfl

end BackwardReader

namespace BackwardOptions

/-- The rows behind the header row, or all of them when there is none. -/
def dataRows (options : BackwardOptions) (first : Row) (rows : List Row) : List Row :=
  if options.noHeaders then first :: rows else rows

section

variable {options : BackwardOptions} {dialect : Dialect} (plain : options.Plain dialect)
  (proper : dialect.Proper) {length : Nat} {first : Row} {rows : List Row}
  (legible : Legible length (first :: rows)) {work : Workspace} {path : String}
  (named : Workspace.Plain path)
  (held : work.file? path = some (tableText dialect (first :: rows))) {column : Nat}
  (inside : column < length)

include plain proper legible named held inside

theorem exists_rests_of_table :
    ∃ reader floor, options.openPath path work = .ok reader ∧
      reader.requiredColumn (.position column) = .ok column ∧
      reader.Rests dialect floor (options.dataRows first rows) := by
  have filled : ∀ row ∈ rows, row ≠ [] := fun row member => legible.ne_nil row (by simp [member])
  cases headless : options.noHeaders with
  | true =>
    obtain ⟨reader, opened, headers, rests⟩ := openPath_of_headless_table plain proper
      legible.clear_first filled named held headless
    rw [dataRows, if_pos headless]
    refine ⟨reader, 0, opened, ?_, rests⟩
    simp only [BackwardReader.requiredColumn, BackwardReader.columnIndex, headers,
      Outcome.mapError_ok]
  | false =>
    obtain ⟨reader, opened, headers, rests⟩ := openPath_of_table plain proper
      legible.clear_first filled named held headless
    rw [dataRows, headless]
    refine ⟨reader, _, opened, ?_, rests⟩
    have within : column < (Headers.ofNames first).length := by
      rw [← legible.even first (by simp)] at inside
      exact inside
    simp [BackwardReader.requiredColumn, BackwardReader.columnIndex, headers, Headers.resolve,
      within, Outcome.mapError_ok]

theorem lastCell_of_table_nil (none_there : options.dataRows first rows = []) :
    options.lastCell path (.position column) work = .ok none := by
  obtain ⟨reader, floor, opened, resolved, rests⟩ :=
    exists_rests_of_table plain proper legible named held inside
  rw [none_there] at rests
  exact BackwardReader.lastCell_of_rests_nil opened resolved rests

/-- In a written table the last cell of a column is looked up in the last row. -/
theorem lastCell_of_table {before : List Row} {row : Row}
    (split : options.dataRows first rows = before ++ [row])
    (unmarked : ∀ cell ∈ row.head?, ¬Text.StartsWithMark cell) :
    ∃ folded : Row, row.Folds folded ∧
      options.lastCell path (.position column) work = .ok (some (folded.cell column)) := by
  obtain ⟨reader, floor, opened, resolved, rests⟩ :=
    exists_rests_of_table plain proper legible named held inside
  have member : row ∈ first :: rows := by
    have here : row ∈ options.dataRows first rows := by simp [split]
    unfold dataRows at here
    split at here
    · exact here
    · exact List.mem_cons_of_mem first here
  rw [split] at rests
  exact BackwardReader.lastCell_of_rests_concat opened resolved rests
    ⟨legible.ne_nil row member, unmarked⟩ (by rwa [legible.even row member])

end

end BackwardOptions

end ResumableCsv
