import ResumableCsv.Proofs.Reader.Documents
import ResumableCsv.Proofs.Writer.Content
import ResumableCsv.Resume.Context

/-!
Written tables: rows of one length as the text that is written for them. Such a text has no mark in
front unless its first cell has, so it is read back as the same rows and passes for an output with
its first row as the header.
-/

namespace ResumableCsv

open Record

/-- The text written for some rows. -/
def tableText (dialect : Dialect) (rows : List Row) : Bytes :=
  rows.flatMap fun row => encode dialect (row.map Text.bytes)

theorem tableText_append (dialect : Dialect) (rows others : List Row) :
    tableText dialect (rows ++ others) = tableText dialect rows ++ tableText dialect others :=
  List.flatMap_append

theorem tableText_concat (dialect : Dialect) (rows : List Row) (row : Row) :
    tableText dialect (rows ++ [row]) =
      tableText dialect rows ++ encode dialect (row.map Text.bytes) := by
  simp [tableText]

theorem tableText_ne_nil (dialect : Dialect) {rows : List Row} (some_row : rows ≠ []) :
    tableText dialect rows ≠ [] := by
  cases rows with
  | nil => exact absurd rfl some_row
  | cons row rest =>
    have written : (encode dialect (row.map Text.bytes)) ≠ [] := by
      unfold encode pieces
      split <;> simp
    simp [tableText, written]

/-- The text of a table ends its last line. -/
theorem getLast?_tableText (dialect : Dialect) {rows : List Row} (some_row : rows ≠ []) :
    (tableText dialect rows).getLast? = some lineFeed := by
  obtain ⟨before, last, rfl⟩ := List.eq_nil_or_concat rows |>.resolve_left some_row
  have ends : (encode dialect (last.map Text.bytes)).getLast? = some lineFeed := by
    unfold encode pieces
    split <;> simp
  rw [List.concat_eq_append, tableText_concat, List.getLast?_append, ends]
  rfl

/-- Rows of one length, with a first cell that does not pass for a mark. -/
structure Legible (length : Nat) (rows : List Row) : Prop where
  positive : 0 < length
  even : ∀ row ∈ rows, row.length = length
  unmarked : ∀ row ∈ rows.head?, ∀ cell ∈ row.head?, ¬Text.StartsWithMark cell

theorem Legible.ne_nil {length : Nat} {rows : List Row} (legible : Legible length rows) :
    ∀ row ∈ rows, row ≠ [] := by
  rintro _ member rfl
  have none_there := legible.even [] member
  have positive := legible.positive
  simp only [List.length_nil] at none_there
  omega

/-- A table as lines, each spelled as it is written. -/
def Record.Document.ofRows (dialect : Dialect) (rows : List Row) : Document :=
  ⟨rows.map fun row => ⟨spelling dialect (row.map Text.bytes), false⟩, []⟩

namespace Record.Document

variable {dialect : Dialect} {rows : List Row} {length : Nat}

theorem fair_ofRows : (ofRows dialect rows).Fair dialect := by
  intro fields member
  have origin : fields = [] ∨ ∃ row ∈ rows, spelling dialect (row.map Text.bytes) = fields := by
    simpa [Document.rows, ofRows, or_comm, eq_comm] using member
  rcases origin with rfl | ⟨row, _, rfl⟩
  · simp
  · exact fair_spelling dialect _

theorem text_ofRows (filled : ∀ row ∈ rows, row ≠ []) :
    (ofRows dialect rows).text dialect = tableText dialect rows := by
  induction rows with
  | nil => rfl
  | cons row rest ih =>
    have first : row.map Text.bytes ≠ [] := by simpa using filled row (by simp)
    have later := ih fun other member => filled other (by simp [member])
    calc (ofRows dialect (row :: rest)).text dialect
        = rowText dialect (spelling dialect (row.map Text.bytes)) ++
            ([lineFeed] ++ (ofRows dialect rest).text dialect) := text_cons dialect _ _ _
      _ = encode dialect (row.map Text.bytes) ++ tableText dialect rest := by
          rw [later, encode_eq dialect first, List.append_assoc]
      _ = tableText dialect (row :: rest) := rfl

theorem records_ofRows (filled : ∀ row ∈ rows, row ≠ []) :
    (ofRows dialect rows).records dialect =
      rows.map fun row => spelling dialect (row.map Text.bytes) := by
  have written (row : Row) (member : row ∈ rows) :
      rowText dialect (spelling dialect (row.map Text.bytes)) ≠ [] :=
    rowText_spelling_ne_nil dialect (by simpa using filled row member)
  have kept : (rows.map fun row => spelling dialect (row.map Text.bytes)).filter
      (fun fields => rowText dialect fields ≠ []) =
        rows.map fun row => spelling dialect (row.map Text.bytes) := by
    rw [List.filter_eq_self]
    intro fields member
    obtain ⟨row, there, rfl⟩ := List.mem_map.mp member
    simpa using written row there
  simp only [records, Document.rows, ofRows, List.map_map, Function.comp_def, List.filter_append,
    kept]
  simp [rowText]

theorem contents_ofRows (filled : ∀ row ∈ rows, row ≠ []) :
    ((ofRows dialect rows).records dialect).map (·.map Spelled.content) =
      rows.map (·.map Text.bytes) := by
  rw [records_ofRows filled, List.map_map]
  apply List.map_congr_left
  intro row _
  exact content_spelling dialect _

end Record.Document

/-- Behind the quote in front of a written field stands another quote or a whole character. -/
theorem text_quoted (dialect : Dialect) {cell : String}
    (quoted : needsQuotes dialect (Text.bytes cell) = true) :
    ∃ byte tail, Spelled.text dialect ⟨true, Text.bytes cell⟩ = dialect.quote :: byte :: tail ∧
      (byte = dialect.quote ∨ byte.IsUTF8FirstByte) := by
  have first := Text.isUTF8FirstByte_head_bytes cell
  cases chars : Text.bytes cell with
  | nil =>
    rw [chars] at quoted
    cases quoted
  | cons byte rest =>
    rw [chars] at first
    by_cases same : byte = dialect.quote
    · exact ⟨byte, byte :: (doubled dialect.quote rest ++ [dialect.quote]),
        by simp [Spelled.text, doubled, same], .inl same⟩
    · exact ⟨byte, doubled dialect.quote rest ++ [dialect.quote],
        by simp [Spelled.text, doubled, same], .inr (first byte rfl)⟩

/-- How written fields begin: with a delimiter or a whole character, or with a quote in front of
another quote or a whole character. -/
inductive Starts (dialect : Dialect) : Bytes → Prop
  | plain {byte : UInt8} (tail : Bytes) (whole : byte = dialect.delimiter ∨ byte.IsUTF8FirstByte) :
      Starts dialect (byte :: tail)
  | quoted {byte : UInt8} (tail : Bytes) (whole : byte = dialect.quote ∨ byte.IsUTF8FirstByte) :
      Starts dialect (dialect.quote :: byte :: tail)

theorem starts_written (dialect : Dialect) (cells : Row) (rest : Bytes) :
    Starts dialect (rowText dialect ((cells.map Text.bytes).map fun field =>
      ⟨needsQuotes dialect field, field⟩) ++ lineFeed :: rest) := by
  have feed : lineFeed.IsUTF8FirstByte := by decide
  rcases cells with _ | ⟨cell, more⟩
  · exact .plain rest (.inr feed)
  · obtain ⟨byte, tail, whole, same⟩ : ∃ byte tail,
        (byte = dialect.delimiter ∨ byte.IsUTF8FirstByte) ∧
        rowText dialect (((cell :: more).map Text.bytes).map fun field =>
          ⟨needsQuotes dialect field, field⟩) ++ lineFeed :: rest =
            Spelled.text dialect ⟨needsQuotes dialect (Text.bytes cell), Text.bytes cell⟩ ++
              byte :: tail := by
      cases more with
      | nil => exact ⟨lineFeed, rest, .inr feed, rfl⟩
      | cons next others => exact ⟨dialect.delimiter, _, .inl rfl, by simp [rowText]; rfl⟩
    rw [same]
    cases quoted : needsQuotes dialect (Text.bytes cell) with
    | true =>
      obtain ⟨second, others, text, inner⟩ := text_quoted dialect quoted
      rw [text]
      exact .quoted _ inner
    | false =>
      have first := Text.isUTF8FirstByte_head_bytes cell
      cases chars : Text.bytes cell with
      | nil => exact .plain tail whole
      | cons head others =>
        rw [chars] at first
        exact .plain _ (.inr (first head rfl))

/-- The bytes of a mark behind its first one are inside a character. -/
theorem not_mark_quoted {dialect : Dialect} {byte : UInt8} {tail : Bytes}
    (whole : byte = dialect.quote ∨ byte.IsUTF8FirstByte) :
    ¬byteOrderMark <+: dialect.quote :: byte :: tail := by
  rintro ⟨rest, same⟩
  obtain ⟨quote, behind⟩ := List.cons.inj same
  obtain ⟨rfl, _⟩ := List.cons.inj behind
  rcases whole with same | whole
  · rw [← quote] at same
    exact absurd same (by decide)
  · exact absurd whole (by decide)

theorem Starts.not_mark_delimiter {dialect : Dialect} {text : Bytes}
    (starts : Starts dialect text) : ¬byteOrderMark <+: dialect.delimiter :: text := by
  rintro ⟨rest, same⟩
  obtain ⟨delimiter, behind⟩ := List.cons.inj same
  cases starts with
  | plain tail whole =>
    obtain ⟨rfl, _⟩ := List.cons.inj behind
    rcases whole with same | whole
    · rw [← delimiter] at same
      exact absurd same (by decide)
    · exact absurd whole (by decide)
  | quoted tail whole =>
    obtain ⟨quote, behind⟩ := List.cons.inj behind
    obtain ⟨rfl, _⟩ := List.cons.inj behind
    rcases whole with same | whole
    · rw [← quote] at same
      exact absurd same (by decide)
    · exact absurd whole (by decide)

/-- The text of a row does not begin with a mark when its first cell does not. -/
theorem not_mark_row {dialect : Dialect} {row : Row} (filled : row ≠ [])
    (unmarked : ∀ cell ∈ row.head?, ¬Text.StartsWithMark cell) (rest : Bytes) :
    ¬byteOrderMark <+: rowText dialect (spelling dialect (row.map Text.bytes)) ++
      lineFeed :: rest := by
  obtain ⟨cell, more, rfl⟩ := List.exists_cons_of_ne_nil filled
  by_cases lone : (cell :: more).map Text.bytes = [[]]
  · rw [spelling, if_pos lone]
    exact not_mark_quoted (.inl rfl)
  · rw [spelling, if_neg lone]
    have leads : ∃ tail, rowText dialect (((cell :: more).map Text.bytes).map fun field =>
        ⟨needsQuotes dialect field, field⟩) =
          Spelled.text dialect ⟨needsQuotes dialect (Text.bytes cell), Text.bytes cell⟩ ++ tail := by
      cases more <;> simp [rowText]
    cases quoted : needsQuotes dialect (Text.bytes cell) with
    | true =>
      obtain ⟨tail, same⟩ := leads
      obtain ⟨byte, others, text, whole⟩ := text_quoted dialect quoted
      rw [same, quoted, text]
      exact not_mark_quoted whole
    | false =>
      by_cases blank : cell = ""
      · subst blank
        cases more with
        | nil => exact absurd rfl lone
        | cons next others =>
          have nothing : Text.bytes "" = [] := rfl
          have second := (starts_written dialect (next :: others) rest).not_mark_delimiter
          rw [nothing] at quoted
          simpa [rowText, Spelled.text, quoted, nothing] using second
      · obtain ⟨tail, same⟩ := leads
        rw [same, quoted, List.append_assoc]
        intro marked
        exact unmarked cell rfl (Text.startsWithMark_of_prefix blank marked)

/-- A row whose text is told from a blank line and from a mark. -/
structure Row.Clear (row : Row) : Prop where
  filled : row ≠ []
  unmarked : ∀ cell ∈ row.head?, ¬Text.StartsWithMark cell

theorem Row.Clear.not_mark_encode {row : Row} (clear : row.Clear) (dialect : Dialect)
    (rest : Bytes) : ¬byteOrderMark <+: encode dialect (row.map Text.bytes) ++ rest := by
  rw [encode_eq dialect (by simpa using clear.filled), List.append_assoc]
  exact not_mark_row clear.filled clear.unmarked rest

theorem Row.Clear.not_mark_table {row : Row} (clear : row.Clear) (dialect : Dialect)
    (rows : List Row) : ¬byteOrderMark <+: tableText dialect (row :: rows) :=
  clear.not_mark_encode dialect (tableText dialect rows)

theorem Legible.clear_first {length : Nat} {first : Row} {rows : List Row}
    (legible : Legible length (first :: rows)) : first.Clear :=
  ⟨legible.ne_nil first (by simp), legible.unmarked first rfl⟩

/-- The text of a legible table does not begin with a mark. -/
theorem Legible.not_mark {dialect : Dialect} {length : Nat} {rows : List Row}
    (legible : Legible length rows) : ¬byteOrderMark <+: tableText dialect rows := by
  cases rows with
  | nil =>
    intro marked
    exact absurd (List.prefix_nil.mp marked) (by decide)
  | cons first rows => exact legible.clear_first.not_mark_table dialect rows

/-- No mark is dropped in front of a legible table, and its text is that of its lines. -/
theorem Legible.dropMark_eq {dialect : Dialect} {length : Nat} {rows : List Row}
    (legible : Legible length rows) :
    dropMark (dropMark (tableText dialect rows)) = (Document.ofRows dialect rows).text dialect := by
  have unmarked : ¬byteOrderMark <+: tableText dialect rows := legible.not_mark
  rw [dropMark_of_unmarked unmarked, dropMark_of_unmarked unmarked,
    Document.text_ofRows legible.ne_nil]

theorem Legible.length_eq_first {length : Nat} {first : Row} {rows : List Row}
    (legible : Legible length (first :: rows)) : ∀ row ∈ rows, row.length = first.length := by
  intro row member
  rw [legible.even row (by simp [member]), legible.even first (by simp)]

namespace ReaderOptions

variable {options : ReaderOptions} {dialect : Dialect} (plain : options.Plain dialect)
  (proper : dialect.Proper) {length : Nat} {first : Row} {rows : List Row}
  (legible : Legible length (first :: rows))

include plain proper legible

/-- A written table is read back row by row. -/
theorem openBytes_of_table :
    ∃ reader, options.openBytes (tableText dialect (first :: rows)) = .ok reader ∧
      options.Shows first rows reader :=
  openBytes_of_document plain proper Document.fair_ofRows
    (Document.contents_ofRows legible.ne_nil) legible.length_eq_first legible.dropMark_eq

theorem openPath_of_table {work : Workspace} {path : String} (named : Workspace.Plain path)
    (held : work.file? path = some (tableText dialect (first :: rows))) :
    ∃ reader, options.openPath path work = .ok reader ∧ options.Shows first rows reader :=
  openPath_of_document plain proper Document.fair_ofRows
    (Document.contents_ofRows legible.ne_nil) legible.length_eq_first legible.dropMark_eq named held

end ReaderOptions

namespace OutputContext

variable {context : OutputContext} {defaults : Defaults} {work : Workspace} {path : String}

/-- How the output of a context is written. -/
def dialect (context : OutputContext) : Dialect := ⟨context.delimiter, 0x22⟩

theorem readerOptions_plain (kept : defaults.readNuls = .keep) :
    (context.readerOptions defaults).Plain context.dialect :=
  ⟨rfl, kept, rfl, rfl, rfl⟩

/-- The header check compares the first row with the header that is due. -/
theorem checkHeader_of_peek {names first : Row} (declared : context.fieldnames = some names)
    {reader : Reader}
    (opened : { context.readerOptions defaults with noHeaders := true }.openPath path work =
      .ok reader) (peeked : reader.peek.1 = .ok (some first)) :
    context.checkHeader path defaults work =
      if first = names then .ok () else .error (.resume (.headerMismatch first names)) := by
  simp only [checkHeader, declared, opened, Outcome.ok_bind, peeked, Option.getD_some]
  rfl

section

variable (kept : defaults.readNuls = .keep) (proper : context.dialect.Proper)
  (named : Workspace.Plain path) {length : Nat} {first : Row} {rows : List Row}
  (legible : Legible length (first :: rows))
  (held : work.file? path = some (tableText context.dialect (first :: rows)))

include kept proper named legible held

theorem checkHeader_eq_of_table {names : Row} (declared : context.fieldnames = some names) :
    context.checkHeader path defaults work =
      if first = names then .ok () else .error (.resume (.headerMismatch first names)) := by
  have plain : ReaderOptions.Plain { context.readerOptions defaults with noHeaders := true }
      context.dialect := ⟨rfl, kept, rfl, rfl, rfl⟩
  obtain ⟨reader, opened, shows⟩ :=
    ReaderOptions.openPath_of_table plain proper legible named held
  have peeked := shows.peek_eq
  simp only [ReaderOptions.dataRows, if_true, List.head?_cons] at peeked
  exact checkHeader_of_peek declared opened peeked

/-- A table passes for an output of the context when its first row is the header that is due. -/
theorem checkHeader_of_table (expected : ∀ names ∈ context.fieldnames, names = first) :
    context.checkHeader path defaults work = .ok () := by
  cases declared : context.fieldnames with
  | none => simp only [checkHeader, declared]
  | some names =>
    rw [checkHeader_eq_of_table kept proper named legible held declared,
      if_pos (expected names declared).symm]

end

end OutputContext

end ResumableCsv
