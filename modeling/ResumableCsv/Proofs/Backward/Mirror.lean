import ResumableCsv.Proofs.Backward.Open
import ResumableCsv.Proofs.Reader.Documents

/-!
Reading a text from both ends. The rows from the end are the rows from the start, last one first,
just when no cell of them has a carriage return in front of a line feed and no record behind the
start of the text begins with a byte-order mark: the lines of a record lose their carriage returns
when they are put together again, and every record is stripped of a mark.
-/

namespace ResumableCsv

open Record

namespace Record.Document

variable {dialect : Dialect} {document : Document}

/-- The lines of a text. -/
def blocks (dialect : Dialect) (document : Document) : List Block :=
  (document.lines.map fun line => ⟨rowText dialect line.fields, line.carriage⟩) ++
    [⟨rowText dialect document.last, false⟩]

/-- The lines of a text with a byte-order mark in front of it. -/
def markedBlocks (dialect : Dialect) (document : Document) : List Block :=
  (document.blocks dialect).modifyHead fun block =>
    { block with text := byteOrderMark ++ block.text }

theorem blocksText_blocks (dialect : Dialect) (document : Document) :
    blocksText (document.blocks dialect) = document.text dialect ++ [lineFeed] := by
  have lines : blocksText (document.lines.map fun line =>
      ⟨rowText dialect line.fields, line.carriage⟩) = linesText dialect document.lines := by
    rw [blocksText, linesText, List.flatMap_map]
    apply congrArg (fun text => List.flatMap text document.lines)
    funext line
    cases returns : line.carriage <;> simp [Line.text, Line.ending, Block.back, returns]
  rw [blocks, blocksText_append, lines, text, List.append_assoc]
  simp [blocksText, Block.back]

theorem dropLast_blocksText_blocks (dialect : Dialect) (document : Document) :
    (blocksText (document.blocks dialect)).dropLast = document.text dialect := by
  rw [blocksText_blocks, List.dropLast_concat]

theorem dropLast_blocksText_markedBlocks (dialect : Dialect) (document : Document) :
    (blocksText (document.markedBlocks dialect)).dropLast =
      byteOrderMark ++ document.text dialect := by
  have text := blocksText_blocks dialect document
  rw [markedBlocks]
  cases whole : document.blocks dialect with
  | nil =>
    rw [whole] at text
    simp [blocksText] at text
  | cons block others =>
    rw [whole] at text
    have longer : blocksText (List.modifyHead (fun block =>
        { block with text := byteOrderMark ++ block.text }) (block :: others)) =
          byteOrderMark ++ blocksText (block :: others) := by
      simp [blocksText, Block.back]
    rw [longer, text, ← List.append_assoc, List.dropLast_concat]

theorem texts_blocks (dialect : Dialect) (document : Document) :
    (document.blocks dialect).map Block.text = document.rows.map (rowText dialect) := by
  simp [blocks, Document.rows, Function.comp_def]

theorem texts_markedBlocks (dialect : Dialect) {document : Document} {first : List Spelled}
    {later : List (List Spelled)} (rows : document.rows = first :: later) :
    (document.markedBlocks dialect).map Block.text =
      (byteOrderMark ++ rowText dialect first) :: later.map (rowText dialect) := by
  have texts := texts_blocks dialect document
  rw [rows, List.map_cons] at texts
  obtain ⟨block, others, whole, text, rest⟩ := List.map_eq_cons_iff.mp texts
  rw [markedBlocks, whole, List.modifyHead_cons, List.map_cons, text, rest]

theorem exists_rows (document : Document) : ∃ first later, document.rows = first :: later := by
  obtain ⟨lines, last⟩ := document
  cases lines <;> exact ⟨_, _, rfl⟩

theorem framed_mark {quote : UInt8} (small : quote.toNat < 0x80) {text : Bytes}
    (framed : Framed quote text) : Framed quote (byteOrderMark ++ text) := by
  have unquoted : byteOrderMark.count quote = 0 := by
    rw [List.count_eq_zero]
    intro member
    have large : ∀ byte ∈ byteOrderMark, 0x80 ≤ byte.toNat :=
      Text.forall_mem_mark (by decide) (by decide) (by decide)
    have bound := large quote member
    omega
  have unbroken : lineFeed ∉ byteOrderMark := by decide
  refine ⟨by simp [byteOrderMark, lineFeed], ?_,
    by rw [List.count_append, unquoted, Nat.zero_add, framed.even], ?_⟩
  · intro byte found
    rw [List.getLast?_append] at found
    cases last : text.getLast? with
    | none =>
      rw [last] at found
      cases found
      rfl
    | some other =>
      rw [last] at found
      cases found
      exact framed.ends _ last
  · intro before rest split
    rcases List.append_eq_append_iff.mp split with ⟨more, _, there⟩ | ⟨more, front, there⟩
    · exact framed.odd more rest there
    · rcases more with _ | ⟨byte, more⟩
      · exact absurd (by rw [← show lineFeed :: rest = text from there]; rfl) framed.starts
      · rw [front, (List.cons.inj there).1] at unbroken
        simp at unbroken

theorem framed_of_mem (proper : dialect.Proper) {document : Document}
    (fair : document.Fair dialect) {fields : List Spelled} (member : fields ∈ document.rows) :
    Framed dialect.quote (rowText dialect fields) :=
  framed_rowText proper (fair fields member)

theorem whole_blocks (proper : dialect.Proper) {document : Document}
    (fair : document.Fair dialect) :
    Whole dialect.quote (document.blocks dialect) := by
  intro block member
  have listed : block.text ∈ (document.blocks dialect).map Block.text := List.mem_map_of_mem member
  rw [texts_blocks] at listed
  obtain ⟨fields, there, text⟩ := List.mem_map.mp listed
  rw [← text]
  exact .inr (framed_of_mem proper fair there)

theorem whole_markedBlocks (proper : dialect.Proper) (ascii : dialect.Ascii) {document : Document}
    (fair : document.Fair dialect) : Whole dialect.quote (document.markedBlocks dialect) := by
  obtain ⟨first, later, rows⟩ := exists_rows document
  intro block member
  have listed : block.text ∈ (document.markedBlocks dialect).map Block.text :=
    List.mem_map_of_mem member
  rw [texts_markedBlocks dialect rows] at listed
  rcases List.mem_cons.mp listed with head | listed
  · rw [head]
    exact .inr (framed_mark ascii.quote_small (framed_of_mem proper fair (by simp [rows])))
  · obtain ⟨fields, there, text⟩ := List.mem_map.mp listed
    rw [← text]
    exact .inr (framed_of_mem proper fair (by simp [rows, there]))

end Record.Document

/-- What keeps the rows of a text the same from both ends. Without a header row the first line is
not asked to be unmarked, since the mark it starts with is that of the text; but then a mark that is
still in front of the text may not make up the whole line. -/
structure Record.Document.Symmetric (dialect : Dialect) (noHeaders : Bool) (content : Bytes)
    (document : Document) : Prop where
  unbroken : ∀ record ∈
    if noHeaders then document.records dialect else (document.records dialect).tail,
    ∀ field ∈ record, ¬crlf <:+: field.content
  unmarked : ∀ record ∈ if noHeaders then document.rows.tail else (document.records dialect).tail,
    ¬byteOrderMark <+: rowText dialect record
  attached : noHeaders = true → byteOrderMark <+: dropMark content →
    ∀ line ∈ document.rows.head?, rowText dialect line ≠ []

/-- A record without line breaks of two characters in its fields, and without a mark in front. -/
structure Record.Intact (dialect : Dialect) (record : List Spelled) : Prop where
  unbroken : ∀ field ∈ record, ¬crlf <:+: field.content
  unmarked : ¬byteOrderMark <+: rowText dialect record

namespace Record.Document

variable {dialect : Dialect} {content : Bytes} {document : Document} {first : List Spelled}
  {later : List (List Spelled)} (lines : document.rows = first :: later)

theorem mem_records_iff {record : List Spelled} :
    record ∈ document.records dialect ↔ record ∈ document.rows ∧ rowText dialect record ≠ [] := by
  simp [records]

theorem not_marked_of_blank {record : List Spelled} (blank : rowText dialect record = []) :
    ¬byteOrderMark <+: rowText dialect record := by
  rw [blank, List.prefix_nil]
  decide

include lines

theorem rowText_prefix_text : rowText dialect first <+: document.text dialect := by
  obtain ⟨_ | ⟨line, others⟩, last⟩ := document
  · cases lines
    exact List.prefix_rfl
  · cases lines
    rw [text_cons]
    exact List.prefix_append _ _

theorem symmetric_iff_of_marked (marked : byteOrderMark <+: dropMark content) :
    document.Symmetric dialect true content ↔
      rowText dialect first ≠ [] ∧ (∀ field ∈ first, ¬crlf <:+: field.content) ∧
        ∀ record ∈ later, rowText dialect record ≠ [] → Intact dialect record := by
  constructor
  · intro symmetric
    have written := symmetric.attached rfl marked first (by simp [lines])
    refine ⟨written, ?_, fun record member filled => ⟨?_, ?_⟩⟩
    · exact symmetric.unbroken first (mem_records_iff.mpr ⟨by simp [lines], written⟩)
    · exact symmetric.unbroken record (mem_records_iff.mpr ⟨by simp [lines, member], filled⟩)
    · exact symmetric.unmarked record (by simp [lines, member])
  · rintro ⟨written, unbroken, intact⟩
    refine ⟨?_, ?_, ?_⟩
    · intro record member
      obtain ⟨there, filled⟩ := mem_records_iff.mp member
      rw [lines] at there
      rcases List.mem_cons.mp there with rfl | there
      · exact unbroken
      · exact (intact record there filled).unbroken
    · intro record member
      by_cases blank : rowText dialect record = []
      · exact not_marked_of_blank blank
      · exact (intact record (by simpa [lines] using member) blank).unmarked
    · intro _ _ line found
      rw [lines] at found
      cases found
      exact written

theorem symmetric_iff_of_not_marked (unmarked : ¬byteOrderMark <+: dropMark content)
    (left : dropMark content = document.text dialect) :
    document.Symmetric dialect true content ↔
      ∀ record ∈ document.records dialect, Intact dialect record := by
  constructor
  · intro symmetric record member
    obtain ⟨there, filled⟩ := mem_records_iff.mp member
    refine ⟨symmetric.unbroken record member, ?_⟩
    rw [lines] at there
    rcases List.mem_cons.mp there with rfl | there
    · rw [left] at unmarked
      exact fun marked => unmarked (marked.trans (rowText_prefix_text lines))
    · exact symmetric.unmarked record (by simpa [lines] using there)
  · intro intact
    refine ⟨fun record member => (intact record member).unbroken, ?_,
      fun _ marked => absurd marked unmarked⟩
    intro record member
    by_cases blank : rowText dialect record = []
    · exact not_marked_of_blank blank
    · exact (intact record (mem_records_iff.mpr ⟨List.mem_of_mem_tail member, blank⟩)).unmarked

end Record.Document

namespace BackwardReader

variable {reader : BackwardReader} {blocks : List Block}

theorem reverse_rows_eq_iff (apart : reader.dialect.quote ≠ carriageReturn)
    (holds : reader.Holds blocks) {rows : List Row} :
    reader.rows.reverse = rows.map .ok ↔
      ((blocks.map Block.text).filter (· ≠ [])).map (fun text => reader.parse (foldBreaks text)) =
        rows.map .ok := by
  have texts : (filled blocks).map Block.text = (blocks.map Block.text).filter (· ≠ []) := by
    rw [filled, List.filter_map]
    rfl
  rw [rows_of_holds apart holds, List.reverse_eq_iff, ← List.map_reverse, upToError_eq_iff,
    ← texts, List.map_map, List.map_reverse, List.map_reverse, List.reverse_inj]
  rfl

/-- Just intact records are read back. -/
theorem map_parse_eq_iff (plain : reader.Plain) (ascii : reader.dialect.Ascii)
    {records : List (List Spelled)} (fair : ∀ record ∈ records, ∀ field ∈ record,
      field.Fair reader.dialect)
    (written : ∀ record ∈ records, rowText reader.dialect record ≠ []) {rows : List Row}
    (same : records.map (·.map Spelled.content) = rows.map (·.map Text.bytes)) :
    records.map (fun record => reader.parse (foldBreaks (rowText reader.dialect record))) =
        rows.map .ok ↔ ∀ record ∈ records, Intact reader.dialect record := by
  induction records generalizing rows with
  | nil =>
    have nothing : rows = [] := by simpa using same.symm
    simp [nothing]
  | cons record records ih =>
    obtain ⟨row, rest, rfl, head, tail⟩ := List.map_eq_cons_iff.mp same.symm
    have first := parse_rowText_eq_ok_iff plain (fair record (by simp)) ascii
      (written record (by simp)) head.symm
    have later := ih (fun other member => fair other (by simp [member]))
      (fun other member => written other (by simp [member])) tail.symm
    rw [List.map_cons, List.map_cons, List.cons.injEq, first, later, List.forall_mem_cons]
    exact and_congr_left fun _ => ⟨fun both => ⟨both.1, both.2⟩, fun kept => ⟨kept.1, kept.2⟩⟩

theorem reverse_rows_eq_iff_of_blocks (plain : reader.Plain) (ascii : reader.dialect.Ascii)
    {document : Document} (fair : document.Fair reader.dialect)
    (holds : reader.Holds (document.blocks reader.dialect)) {rows : List Row}
    (same : (document.records reader.dialect).map (·.map Spelled.content) =
      rows.map (·.map Text.bytes)) :
    reader.rows.reverse = rows.map .ok ↔
      ∀ record ∈ document.records reader.dialect, Intact reader.dialect record := by
  have origin {record : List Spelled} (member : record ∈ document.records reader.dialect) :
      record ∈ document.rows ∧ rowText reader.dialect record ≠ [] := by
    simpa [Document.records] using member
  rw [reverse_rows_eq_iff (plain.proper.ne_quote rfl).symm holds, Document.texts_blocks,
    List.filter_map, List.map_map]
  exact map_parse_eq_iff plain ascii (fun record member => fair record (origin member).1)
    (fun record member => (origin member).2) same

theorem reverse_rows_eq_iff_of_markedBlocks (plain : reader.Plain) (ascii : reader.dialect.Ascii)
    {document : Document} (fair : document.Fair reader.dialect)
    (holds : reader.Holds (document.markedBlocks reader.dialect)) {rows : List Row}
    (same : (document.records reader.dialect).map (·.map Spelled.content) =
      rows.map (·.map Text.bytes)) {first : List Spelled} {later : List (List Spelled)}
    (lines : document.rows = first :: later) :
    reader.rows.reverse = rows.map .ok ↔
      rowText reader.dialect first ≠ [] ∧ (∀ field ∈ first, ¬crlf <:+: field.content) ∧
        ∀ record ∈ later, rowText reader.dialect record ≠ [] → Intact reader.dialect record := by
  have records : document.records reader.dialect =
      (first :: later).filter fun fields => rowText reader.dialect fields ≠ [] := by
    rw [Document.records, lines]
  have written (record : List Spelled)
      (member : record ∈ later.filter fun fields => rowText reader.dialect fields ≠ []) :
      record ∈ document.rows ∧ rowText reader.dialect record ≠ [] := by
    obtain ⟨there, filled⟩ := List.mem_filter.mp member
    exact ⟨by simp [lines, there], by simpa using filled⟩
  rw [reverse_rows_eq_iff (plain.proper.ne_quote rfl).symm holds,
    Document.texts_markedBlocks _ lines,
    List.filter_cons_of_pos (by simp [byteOrderMark]), List.filter_map, List.map_cons,
    List.map_map]
  by_cases blank : rowText reader.dialect first = []
  · have longer := congrArg List.length same
    rw [records, List.filter_cons_of_neg (by simpa using blank)] at longer
    constructor
    · intro whole
      have total := congrArg List.length whole
      simp only [List.length_cons, List.length_map, Function.comp_def] at total longer
      omega
    · exact fun kept => absurd blank kept.1
  · rw [records, List.filter_cons_of_pos (by simpa using blank)] at same
    obtain ⟨row, rest, rfl, head, tail⟩ := List.map_eq_cons_iff.mp same.symm
    have start := parse_eq_ok_iff_of_dropMark plain (fair first (by simp [lines])) blank
      (dropMark_byteOrderMark (rowText reader.dialect first)) head.symm
    have others := map_parse_eq_iff plain ascii
      (fun record member => fair record (written record member).1)
      (fun record member => (written record member).2) tail.symm
    rw [List.map_cons, List.cons.injEq, start]
    refine (and_congr_right fun _ => others).trans ?_
    simp [blank]

end BackwardReader

section

variable {other : BackwardOptions} {dialect : Dialect} (plain : other.Plain dialect)
  (proper : dialect.Proper) (ascii : dialect.Ascii) {document : Document}
  (fair : document.Fair dialect) {first : Row} {rows : List Row}
  (same : (document.records dialect).map (·.map Spelled.content) =
    (first :: rows).map (·.map Text.bytes))
  {content : Bytes} (left : dropMark (dropMark content) = document.text dialect)

section

include proper fair same left

theorem filled_of_document : content ≠ [] := by
  rintro rfl
  obtain ⟨head, records, found, _⟩ := List.map_eq_cons_iff.mp same
  obtain ⟨ending, rest, scanned, _⟩ := Document.scanRecord_of_records_cons proper fair found
  rw [← left] at scanned
  cases scanned

end

include plain proper ascii fair same left

/-- Behind a header row the rows from the end, reversed, are the others just when the text is
symmetric. -/
theorem openBytes_of_header (headed : other.noHeaders = false) :
    ∃ reader, other.openBytes content = .ok reader ∧ reader.headers = some (.ofNames first) ∧
      (reader.rows.reverse = rows.map .ok ↔ document.Symmetric dialect false content) := by
  obtain ⟨head, records, found, start, later⟩ := List.map_eq_cons_iff.mp same
  obtain ⟨ending, rest, scanned, fairRest, remaining⟩ :=
    Document.scanRecord_of_records_cons proper fair found
  rw [← left, start] at scanned
  obtain ⟨reader, opened, state⟩ := BackwardOptions.openContent_of_header plain headed
    (filled_of_document proper fair same left) scanned
  obtain rfl := state.dialect_eq
  have holds : reader.Holds (rest.blocks reader.dialect) :=
    ⟨state.running, Document.whole_blocks proper fairRest,
      by rw [state.data_eq, Document.dropLast_blocksText_blocks]⟩
  refine ⟨reader, ?_, state.headers_eq, ?_⟩
  · rw [BackwardOptions.openBytes, plain.delimiter_eq]
    exact opened
  · rw [BackwardReader.reverse_rows_eq_iff_of_blocks (state.plain proper) ascii fairRest holds
      (by rw [remaining]; exact later), remaining]
    constructor
    · intro intact
      refine ⟨?_, ?_, by simp⟩ <;> intro record member <;>
        have kept := intact record (by simpa [found] using member)
      · exact kept.unbroken
      · exact kept.unmarked
    · intro symmetric record member
      exact ⟨symmetric.unbroken record (by simpa [found] using member),
        symmetric.unmarked record (by simpa [found] using member)⟩

/-- Without a header row this is so of all rows. -/
theorem openBytes_of_headless (headless : other.noHeaders = true) :
    ∃ reader, other.openBytes content = .ok reader ∧ reader.headers = none ∧
      (reader.rows.reverse = (first :: rows).map .ok ↔
        document.Symmetric dialect true content) := by
  obtain ⟨reader, opened, state⟩ := BackwardOptions.openContent_of_headless plain headless
    (filled_of_document proper fair same left)
  obtain rfl := state.dialect_eq
  refine ⟨reader, ?_, state.headers_eq, ?_⟩
  · rw [BackwardOptions.openBytes, plain.delimiter_eq]
    exact opened
  · obtain ⟨line, others, lines⟩ := Document.exists_rows document
    by_cases marked : byteOrderMark <+: dropMark content
    · rw [Document.symmetric_iff_of_marked lines marked]
      obtain ⟨text, split⟩ := marked
      rw [← split, dropMark_byteOrderMark] at left
      have holds : reader.Holds (document.markedBlocks reader.dialect) :=
        ⟨state.running, Document.whole_markedBlocks proper ascii fair, by
          rw [state.data_eq, Document.dropLast_blocksText_markedBlocks, ← left, split]⟩
      exact BackwardReader.reverse_rows_eq_iff_of_markedBlocks (state.plain proper) ascii fair
        holds same lines
    · rw [dropMark_of_unmarked marked] at left
      rw [Document.symmetric_iff_of_not_marked lines marked left]
      have holds : reader.Holds (document.blocks reader.dialect) :=
        ⟨state.running, Document.whole_blocks proper fair, by
          rw [state.data_eq, Document.dropLast_blocksText_blocks, left]⟩
      exact BackwardReader.reverse_rows_eq_iff_of_blocks (state.plain proper) ascii fair holds
        same

variable {options : ReaderOptions} (readable : options.Plain dialect)
  (alike : other.noHeaders = options.noHeaders) (even : ∀ row ∈ rows, row.length = first.length)

include readable alike even

/-- A text behind the marks in front of it is opened from both ends, with the same header row, and
the rows from its end, reversed, are the rows from its start just when the text is symmetric. -/
theorem backward_rows_reverse_iff :
    ∃ reader backward, options.openBytes content = .ok reader ∧
      other.openBytes content = .ok backward ∧ backward.fieldnames = reader.fieldnames ∧
      (backward.rows.reverse = reader.rows ↔
        document.Symmetric dialect options.noHeaders content) := by
  obtain ⟨reader, opened, shows⟩ :=
    ReaderOptions.openBytes_of_document readable proper fair same even left
  have headers_eq := shows.headers_eq
  have rows_eq := shows.rows_eq
  cases headless : options.noHeaders with
  | false =>
    obtain ⟨backward, openedBack, headers, mirrored⟩ :=
      openBytes_of_header plain proper ascii fair same left (alike.trans headless)
    rw [headless, if_neg (by decide)] at headers_eq
    rw [ReaderOptions.dataRows, headless, if_neg (by decide)] at rows_eq
    refine ⟨reader, backward, opened, openedBack, ?_, by rw [rows_eq]; exact mirrored⟩
    rw [BackwardReader.fieldnames, Reader.fieldnames, headers, headers_eq]
  | true =>
    obtain ⟨backward, openedBack, headers, mirrored⟩ :=
      openBytes_of_headless plain proper ascii fair same left (alike.trans headless)
    rw [headless, if_pos rfl] at headers_eq
    rw [ReaderOptions.dataRows, headless, if_pos rfl] at rows_eq
    refine ⟨reader, backward, opened, openedBack, ?_, by rw [rows_eq]; exact mirrored⟩
    rw [BackwardReader.fieldnames, Reader.fieldnames, headers, headers_eq]

end

/-- Line ends of both kinds, a blank line, and a line feed inside quotes. -/
def mixedDocument : Document :=
  ⟨[⟨[⟨false, Text.bytes "h"⟩, ⟨false, Text.bytes "i"⟩], true⟩, ⟨[], true⟩,
    ⟨[⟨true, Text.bytes "x\ny"⟩, ⟨false, []⟩], false⟩],
    [⟨false, Text.bytes "1"⟩, ⟨false, Text.bytes "2"⟩]⟩

def mixedText : Bytes := Text.bytes "h,i\r\n\r\n\"x\ny\",\n1,2"

theorem backward_rows_reverse_iff_sample :
    ∃ reader backward, ReaderOptions.openBytes { delimiter := some 0x2C } mixedText = .ok reader ∧
      BackwardOptions.openBytes { delimiter := some 0x2C, chunkSize := 1 } mixedText =
        .ok backward ∧
      backward.fieldnames = reader.fieldnames ∧ backward.rows.reverse = reader.rows := by
  have readable : ReaderOptions.Plain { delimiter := some 0x2C } ⟨0x2C, 0x22⟩ :=
    ⟨rfl, rfl, rfl, rfl, rfl⟩
  have plain : BackwardOptions.Plain { delimiter := some 0x2C, chunkSize := 1 } ⟨0x2C, 0x22⟩ :=
    ⟨rfl, rfl, rfl, rfl⟩
  have fair : mixedDocument.Fair ⟨0x2C, 0x22⟩ := by
    unfold Document.Fair Spelled.Fair
    decide
  have left : dropMark (dropMark mixedText) = mixedDocument.text ⟨0x2C, 0x22⟩ := by decide
  have symmetric : mixedDocument.Symmetric ⟨0x2C, 0x22⟩ false mixedText :=
    ⟨by decide, by decide, by decide⟩
  obtain ⟨reader, backward, opened, openedBack, names, mirrored⟩ :=
    backward_rows_reverse_iff plain ⟨by decide, rfl, rfl⟩ ⟨by decide, by decide⟩ fair
      (show _ = (["h", "i"] :: [["x\ny", ""], ["1", "2"]]).map (·.map Text.bytes) by decide)
      left readable rfl (by decide)
  exact ⟨reader, backward, opened, openedBack, names, mirrored.mpr symmetric⟩

/-- A header row and a quoted cell with a line break of two characters. -/
def brokenCell : Bytes := Text.bytes "h\n\"a\r\nb\"\n"

/-- The lines of that text. -/
def brokenDocument : Document :=
  ⟨[⟨[⟨false, Text.bytes "h"⟩], false⟩, ⟨[⟨true, Text.bytes "a\r\nb"⟩], false⟩], []⟩

/-- From the end the line break is a line feed only. -/
theorem backward_rows_reverse_ne :
    ∃ reader backward, ReaderOptions.openBytes { delimiter := some 0x2C } brokenCell = .ok reader ∧
      BackwardOptions.openBytes { delimiter := some 0x2C } brokenCell = .ok backward ∧
      reader.rows = [.ok ["a\r\nb"]] ∧ backward.rows.reverse = [.ok ["a\nb"]] := by
  have proper : Dialect.Proper ⟨0x2C, 0x22⟩ := ⟨by decide, rfl, rfl⟩
  have plain : BackwardOptions.Plain { delimiter := some 0x2C } ⟨0x2C, 0x22⟩ :=
    ⟨rfl, rfl, rfl, rfl⟩
  have fair : brokenDocument.Fair ⟨0x2C, 0x22⟩ := by
    unfold Document.Fair Spelled.Fair
    decide
  have broken : ∀ field ∈ [⟨true, Text.bytes "a\r\nb"⟩], Spelled.Fair ⟨0x2C, 0x22⟩ field := by
    simp [Spelled.Fair]
  have readable : ReaderOptions.Plain { delimiter := some 0x2C } ⟨0x2C, 0x22⟩ :=
    ⟨rfl, rfl, rfl, rfl, rfl⟩
  obtain ⟨reader, built, shows⟩ := ReaderOptions.openBytes_of_document readable proper fair
    (show _ = (["h"] :: [["a\r\nb"]]).map (·.map Text.bytes) by decide) (by simp)
    (show dropMark (dropMark brokenCell) = _ by decide)
  have closes : Closes (Text.bytes "\n\"a\r\nb\"\n") := by
    intro byte member
    obtain rfl : lineFeed = byte := Option.some.inj member
    rfl
  have scanned : scanRecord ⟨0x2C, 0x22⟩ (dropMark (dropMark brokenCell)) =
      some ⟨["h"].map Text.bytes, .terminator, Text.bytes "\"a\r\nb\"\n"⟩ :=
    scanRecord_rowText proper (fair [⟨false, Text.bytes "h"⟩] (by decide)) (by decide) closes
  obtain ⟨backward, opened, state⟩ :=
    BackwardOptions.openContent_of_header plain rfl (by decide) scanned
  have holds : backward.Holds [⟨Text.bytes "\"a\r\nb\"", false⟩, ⟨[], false⟩] := by
    refine ⟨state.running, ?_, state.data_eq⟩
    rw [state.dialect_eq]
    intro block member
    simp only [List.mem_cons, List.not_mem_nil, or_false] at member
    rcases member with rfl | rfl
    · exact .inr (framed_rowText proper broken)
    · exact .inl rfl
  have parsed : backward.parse (foldBreaks (Text.bytes "\"a\r\nb\"")) = .ok ["a\nb"] := by
    rw [BackwardReader.parse_of_dropMark (state.plain proper) (by rwa [state.dialect_eq])
      (by rw [state.dialect_eq]; decide) (by rw [state.dialect_eq]; decide), decodeRow_eq_ok_iff]
    decide
  have rows := BackwardReader.rows_of_holds
    ((state.plain proper).proper.ne_quote rfl).symm holds
  have only : BackwardReader.filled [⟨Text.bytes "\"a\r\nb\"", false⟩, ⟨[], false⟩] =
      [⟨Text.bytes "\"a\r\nb\"", false⟩] := by decide
  rw [only, List.reverse_singleton, List.map_singleton, parsed] at rows
  exact ⟨reader, backward, built, opened, shows.rows_eq, by rw [rows]; rfl⟩

end ResumableCsv
