import ResumableCsv.Proofs.Reader.Build
import ResumableCsv.Proofs.Record.Document
import ResumableCsv.Proofs.Text.Utf8

/-!
Readers on texts: cutting an input into blocks only takes away the marks in front of it, and what is
left is read as the records of its lines that are not blank.
-/

namespace ResumableCsv

open Record

theorem dropMark_append {front : Bytes} (back : Bytes)
    (long : byteOrderMark.length ≤ front.length) :
    dropMark (front ++ back) = dropMark front ++ back := by
  unfold dropMark
  by_cases marked : byteOrderMark <+: front
  · have whole : byteOrderMark <+: front ++ back := marked.trans (List.prefix_append _ _)
    rw [if_pos (List.isPrefixOf_iff_prefix.mpr marked),
      if_pos (List.isPrefixOf_iff_prefix.mpr whole),
      List.drop_append_of_le_length long]
  · have whole : ¬byteOrderMark <+: front ++ back := by
      intro found
      exact marked (List.prefix_of_prefix_length_le found (List.prefix_append _ _) long)
    rw [if_neg (by rwa [List.isPrefixOf_iff_prefix]), if_neg (by rwa [List.isPrefixOf_iff_prefix])]

theorem length_le_dropMark (content : Bytes) :
    content.length ≤ (dropMark content).length + byteOrderMark.length := by
  unfold dropMark
  split
  · simp only [List.length_drop]
    omega
  · omega

/-- Reading by blocks shows a parser the input without a mark at its start, and without a second one
behind that. -/
theorem parsedText_keep {content : Bytes} {blocks : List Bytes}
    (cut : Input.blocks ⟨content, none⟩ = .ok blocks) :
    parsedText .keep blocks = dropMark (dropMark content) := by
  have shape : blocks =
      dropMark (content.take blockSize) :: blocksOf blockSize (content.drop blockSize) := by
    cases content <;> exact (Except.ok.inj cut).symm
  have flat := flatten_blocksOf (show 0 < blockSize by decide) (content.drop blockSize)
  rw [shape]
  simp only [parsedText, reduceCtorEq, if_false, flat]
  by_cases short : content.length ≤ blockSize
  · rw [List.take_of_length_le short, List.drop_eq_nil_of_le short, List.append_nil]
  · have front : (content.take blockSize).length = blockSize := by
      rw [List.length_take]
      omega
    have rest : byteOrderMark.length ≤ (dropMark (content.take blockSize)).length := by
      have bound := length_le_dropMark (content.take blockSize)
      have small : byteOrderMark.length + byteOrderMark.length ≤ blockSize := by decide
      omega
    have whole : byteOrderMark.length ≤ (content.take blockSize).length := by
      rw [front]
      decide
    rw [← dropMark_append _ rest, ← dropMark_append _ whole, List.take_append_drop]

namespace Reader

/-- A text feeds the records of its lines. -/
theorem feeds_document {dialect : Dialect} (proper : dialect.Proper) {document : Document}
    (fair : document.Fair dialect) {rows : List Row}
    (same : (document.records dialect).map (·.map Spelled.content) =
      rows.map (·.map Text.bytes)) :
    (Source.text dialect .utf8 ⟨document.text dialect, none⟩).Feeds rows := by
  induction rows generalizing document with
  | nil =>
    have nothing : document.records dialect = [] := by simpa using same
    refine .nothing ?_
    simp [Source.next, Input.nextRow, Document.scanRecord_of_records_nil nothing]
  | cons row rows ih =>
    cases found : document.records dialect with
    | nil => simp [found] at same
    | cons first others =>
      rw [found] at same
      obtain ⟨head, later⟩ := List.cons.inj same
      obtain ⟨ending, rest, scanned, fairRest, left⟩ :=
        Document.scanRecord_of_records_cons proper fair found
      have decoded := decodeRow_bytes row
      have heads : first.map Spelled.content = row.map Text.bytes := head
      rw [← heads] at decoded
      have step : (Source.text dialect .utf8 ⟨document.text dialect, none⟩).next =
          (.ok (some row), .text dialect .utf8 ⟨rest.text dialect, none⟩) := by
        simp [Source.next, Input.nextRow, scanned, decoded, Except.map]
      exact .row step (ih fairRest (by rw [left]; exact later))

end Reader

namespace Workspace

/-- A path that names a file which is not compressed, and neither of the standard streams. -/
structure Plain (path : String) : Prop where
  named : Path.isConsole path = false
  loose : Path.isGzip path = false

theorem openInput_of_plain {work : Workspace} {path : String} {content : Bytes} (plain : Plain path)
    (held : work.file? path = some content) : work.openInput path = .ok ⟨content, none⟩ := by
  simp [openInput, plain.named, plain.loose, read, held, Except.map]

theorem readUnpacked_of_plain {work : Workspace} {path : String} {content : Bytes}
    (plain : Plain path) (held : work.file? path = some content) :
    work.readUnpacked path = .ok content := by
  simp [readUnpacked, plain.loose, read, held]

/-- A file that can be unpacked whole is read without a fault. -/
theorem openInput_of_readUnpacked {work : Workspace} {path : String} {content : Bytes}
    (named : Path.isConsole path = false) (held : work.readUnpacked path = .ok content) :
    work.openInput path = .ok ⟨content, none⟩ := by
  obtain ⟨stored, read, held⟩ := Outcome.do_eq_ok_iff.mp held
  simp only [openInput, named, read]
  split at held
  next packed =>
    split at held
    next unpacked decoded =>
      cases held
      simp [packed, decoded, Except.map]
    next => cases held
  next loose =>
    cases held
    simp [loose, Except.map]

end Workspace

namespace ReaderOptions

/-- The records of a dialect are to be read as they are. -/
structure Plain (options : ReaderOptions) (dialect : Dialect) : Prop where
  unsplit : options.multiplex = none
  kept : options.nuls = .keep
  decoded : options.encoding = .utf8
  delimiter_eq : options.delimiter = some dialect.delimiter
  quote_eq : options.quote = dialect.quote

/-- The rows behind the header row, or all of them when there is none. -/
def dataRows (options : ReaderOptions) (first : Row) (rows : List Row) : List Row :=
  if options.noHeaders then first :: rows else rows

/-- A reader hands out the data rows of some rows and knows their header row. -/
structure Shows (options : ReaderOptions) (first : Row) (rows : List Row) (reader : Reader) :
    Prop where
  rows_eq : reader.rows = (options.dataRows first rows).map .ok
  peek_eq : reader.peek.1 = .ok (options.dataRows first rows).head?
  headers_eq : reader.headers = if options.noHeaders then none else some (.ofNames first)

variable {options : ReaderOptions} {dialect : Dialect} (plain : options.Plain dialect)

section

include plain

theorem ofBlocks_eq {content : Bytes} {blocks : List Bytes}
    (cut : Input.blocks ⟨content, none⟩ = .ok blocks) :
    Reader.ofBlocks options blocks none dialect.delimiter =
      Reader.build options (.text dialect .utf8 ⟨dropMark (dropMark content), none⟩)
        dialect.delimiter := by
  rw [Reader.ofBlocks, plain.kept, parsedText_keep cut, plain.decoded, plain.quote_eq]

theorem openBytes_eq (content : Bytes) :
    options.openBytes content =
      Reader.build options (.text dialect .utf8 ⟨dropMark (dropMark content), none⟩)
        dialect.delimiter := by
  obtain ⟨blocks, cut⟩ : ∃ blocks, Input.blocks ⟨content, none⟩ = .ok blocks := by
    cases content <;> exact ⟨_, rfl⟩
  simp only [openBytes, cut, plain.delimiter_eq]
  exact ofBlocks_eq plain cut

/-- Only the marks in front of a file are taken away before its records are read. -/
theorem openPath_eq {work : Workspace} {path : String} (named : Workspace.Plain path)
    {content : Bytes} (held : work.file? path = some content) :
    options.openPath path work =
      Reader.build options (.text dialect .utf8 ⟨dropMark (dropMark content), none⟩)
        dialect.delimiter := by
  obtain ⟨blocks, cut⟩ : ∃ blocks, Input.blocks ⟨content, none⟩ = .ok blocks := by
    cases content <;> exact ⟨_, rfl⟩
  have chosen : options.guessDelimiter path blocks = dialect.delimiter := by
    simp [guessDelimiter, plain.delimiter_eq]
  simp only [openPath, Workspace.openInput_of_plain named held, Outcome.mapError_ok]
  change (do
    let blocks ← Input.blocks ⟨content, none⟩
    Reader.ofBlocks options blocks none (options.guessDelimiter path blocks)) = _
  rw [cut]
  change Reader.ofBlocks options blocks none (options.guessDelimiter path blocks) = _
  rw [chosen]
  exact ofBlocks_eq plain cut

end

section

variable (proper : dialect.Proper) {document : Document} (fair : document.Fair dialect)
  {first : Row} {rows : List Row}
  (same : (document.records dialect).map (·.map Spelled.content) =
    (first :: rows).map (·.map Text.bytes))
  (even : ∀ row ∈ rows, row.length = first.length)

include plain proper fair same even

theorem build_of_document :
    ∃ reader, Reader.build options (.text dialect .utf8 ⟨document.text dialect, none⟩)
        dialect.delimiter = .ok reader ∧ options.Shows first rows reader := by
  cases Reader.feeds_document proper fair same with
  | row step later =>
    obtain ⟨reader, built, handed, peeked, headers, _⟩ :=
      Reader.build_of_feeds plain.unsplit plain.kept step later even dialect.delimiter
    exact ⟨reader, built, handed, peeked, headers⟩

variable {content : Bytes} (left : dropMark (dropMark content) = document.text dialect)

include left

/-- A text of records of one length is read as these records, behind its first one when that is the
header. -/
theorem openBytes_of_document :
    ∃ reader, options.openBytes content = .ok reader ∧ options.Shows first rows reader := by
  rw [openBytes_eq plain, left]
  exact build_of_document plain proper fair same even

theorem openPath_of_document {work : Workspace} {path : String} (named : Workspace.Plain path)
    (held : work.file? path = some content) :
    ∃ reader, options.openPath path work = .ok reader ∧ options.Shows first rows reader := by
  rw [openPath_eq plain named held, left]
  exact build_of_document plain proper fair same even

end

end ReaderOptions

end ResumableCsv
