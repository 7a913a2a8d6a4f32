import ResumableCsv.Proofs.Backward.Records

/-!
Opening a reader from the end: the header is scanned from the start, and what lies behind it is the
data, up to the end of the source.
-/

namespace ResumableCsv

open Record

/-- A reader that has handed out nothing of `data` yet, the end of `content`. -/
structure BackwardReader.Opened (reader : BackwardReader) (dialect : Dialect)
    (headers : Option Headers) (content data : Bytes) : Prop where
  dialect_eq : reader.dialect = dialect
  kept : reader.nuls = .keep
  decoded : reader.encoding = .utf8
  headers_eq : reader.headers = headers
  running : reader.exhausted = false
  data_eq : reader.tail.data = data
  floor_eq : reader.tail.floor + data.length = content.length

theorem BackwardReader.Opened.plain {reader : BackwardReader} {dialect : Dialect}
    {headers : Option Headers} {content data : Bytes}
    (opened : reader.Opened dialect headers content data) (proper : dialect.Proper) :
    reader.Plain :=
  ⟨opened.dialect_eq ▸ proper, opened.kept, opened.decoded⟩

namespace BackwardOptions

/-- The records of a dialect are to be read as they are. -/
structure Plain (options : BackwardOptions) (dialect : Dialect) : Prop where
  kept : options.nuls = .keep
  decoded : options.encoding = .utf8
  delimiter_eq : options.delimiter = some dialect.delimiter
  quote_eq : options.quote = dialect.quote

/-- A reader of the last `left` bytes of some content. -/
def readerOn (options : BackwardOptions) (dialect : Dialect) (headers : Option Headers)
    (content : Bytes) (left : Nat) : BackwardReader :=
  { tail := .ofData (content.length - left) (content.drop (content.length - left))
    headers := headers
    dialect := dialect
    encoding := options.encoding
    nuls := options.nuls
    chunkSize := options.chunkSize }

variable {options : BackwardOptions} {dialect : Dialect} {content : Bytes}

/-- What stands behind the header row is left to be read. -/
theorem openContent_eq_of_header (decoded : options.encoding = .utf8)
    (quote_eq : options.quote = dialect.quote) (headed : options.noHeaders = false)
    (filled : content ≠ []) {first : Row} {ending : Ending} {data : Bytes}
    (scanned : scanRecord dialect (dropMark (dropMark content)) =
      some ⟨first.map Text.bytes, ending, data⟩) :
    options.openContent (some dialect.delimiter) content =
      .ok (options.readerOn dialect (some (.ofNames (options.headerNames first))) content
        data.length) := by
  have nonempty : content.isEmpty = false := by simpa using filled
  have chosen : (⟨dialect.delimiter, options.quote⟩ : Dialect) = dialect := by rw [quote_eq]
  have header : options.readHeader dialect (dropMark content) =
      .ok (.ofNames (options.headerNames first), data.length) := by
    rw [readHeader, scanned, decoded]
    simp [decodeRow_bytes, Outcome.ok_bind, pure, Except.pure]
  simp [openContent, nonempty, chosen, headed, header, Except.map, Outcome.ok_bind, pure,
    Except.pure, readerOn]

theorem data_readerOn (headers : Option Headers) {data : Bytes} (behind : data <:+ content) :
    (options.readerOn dialect headers content data.length).tail.data = data := by
  rw [readerOn, Tail.data_ofData]
  exact (List.suffix_iff_eq_drop.mp behind).symm

theorem behind_of_scanRecord {record : Record} {ending : Ending} {data : Bytes}
    (scanned : scanRecord dialect (dropMark (dropMark content)) = some ⟨record, ending, data⟩) :
    data <:+ content :=
  (scanRecord_suffix scanned).trans ((dropMark_suffix _).trans (dropMark_suffix _))

/-- A reader starts out with what stands behind some bytes of its content. -/
theorem exists_tail_of_openContent {delimiter : Option UInt8} {reader : BackwardReader}
    (opened : options.openContent delimiter content = .ok reader) :
    ∃ front data, content = front ++ data ∧ reader.tail = .ofData front.length data := by
  suffices ended : ∃ left, reader.tail =
      .ofData (content.length - left) (content.drop (content.length - left)) by
    obtain ⟨left, tail⟩ := ended
    have length : (content.take (content.length - left)).length = content.length - left := by
      rw [List.length_take]
      omega
    exact ⟨_, _, (List.take_append_drop (content.length - left) content).symm,
      by rw [length, tail]⟩
  unfold openContent at opened
  split at opened
  · cases opened
  · simp only at opened
    split at opened
    · cases opened
      exact ⟨_, rfl⟩
    · obtain ⟨_, _, same⟩ := Outcome.do_eq_ok_iff.mp opened
      cases same
      exact ⟨_, rfl⟩

variable (plain : options.Plain dialect)

include plain

theorem opened_readerOn (headers : Option Headers) {data : Bytes} (behind : data <:+ content) :
    (options.readerOn dialect headers content data.length).Opened dialect headers content data :=
  ⟨rfl, plain.kept, plain.decoded, rfl, rfl, data_readerOn headers behind,
    Nat.sub_add_cancel behind.length_le⟩

theorem openContent_of_header (headed : options.noHeaders = false) (filled : content ≠ [])
    {first : Row} {ending : Ending} {data : Bytes}
    (scanned : scanRecord dialect (dropMark (dropMark content)) =
      some ⟨first.map Text.bytes, ending, data⟩) :
    ∃ reader, options.openContent (some dialect.delimiter) content = .ok reader ∧
      reader.Opened dialect (some (.ofNames first)) content data := by
  have opened := openContent_eq_of_header plain.decoded plain.quote_eq headed filled scanned
  have names : options.headerNames first = first := by simp [headerNames, plain.kept]
  rw [names] at opened
  exact ⟨_, opened, opened_readerOn plain _ (behind_of_scanRecord scanned)⟩

theorem openContent_of_headless (headless : options.noHeaders = true) (filled : content ≠ []) :
    ∃ reader, options.openContent (some dialect.delimiter) content = .ok reader ∧
      reader.Opened dialect none content (dropMark content) := by
  have nonempty : content.isEmpty = false := by simpa using filled
  have chosen : (⟨dialect.delimiter, options.quote⟩ : Dialect) = dialect := by rw [plain.quote_eq]
  refine ⟨_, ?_, opened_readerOn plain none (dropMark_suffix content)⟩
  simp [openContent, nonempty, chosen, headless, Outcome.ok_bind, pure, Except.pure, readerOn]

end BackwardOptions

end ResumableCsv
