import ResumableCsv.Proofs.Backward.Mirror

/-!
Offsets of the records of a text read from its end. Call after call tells where a record starts,
last one first, and from then on that there is none. What a byte-order mark or a line break of two
characters in a record costs is its content only, never the place where it starts.
-/

namespace ResumableCsv

open Record

namespace NulPolicy

theorem hasNul_iff {cell : String} : hasNul cell = true ↔ (0 : UInt8) ∈ Text.bytes cell := by
  rw [hasNul, List.contains_iff_mem, Text.bytes_eq_flatMap, List.mem_flatMap]
  constructor
  · exact fun member => ⟨'\x00', member, by decide⟩
  · rintro ⟨c, member, zero⟩
    rcases Text.encodeChar_cases c with ⟨small, single⟩ | ⟨_, upper⟩
    · have code : c.toNat = 0 := by
        rw [single, List.mem_singleton] at zero
        have value := congrArg UInt8.toNat zero
        rw [UInt8.toNat_ofNat'] at value
        simp only [UInt8.toNat_zero] at value
        omega
      have nul : c = '\x00' := Char.toNat_inj.mp code
      exact nul ▸ member
    · exact absurd (upper 0 zero) (by decide)

theorem firstNul?_eq_none_iff {row : Row} :
    firstNul? row = none ↔ (0 : UInt8) ∉ (row.map Text.bytes).flatten := by
  simp [firstNul?, List.findIdx?_eq_none_iff, ← hasNul_iff]

theorem apply_succeeds {policy : NulPolicy} {row : Row}
    (clean : policy = .reject → firstNul? row = none) : ∃ kept, policy.apply row = .ok kept := by
  cases policy with
  | keep => exact ⟨_, rfl⟩
  | strip => exact ⟨_, rfl⟩
  | reject => exact ⟨row, by rw [apply, clean rfl]⟩

end NulPolicy

namespace Record

variable {dialect : Dialect}

theorem exists_of_mark {cell : String} {more : Bytes}
    (same : byteOrderMark ++ more = Text.bytes cell) : ∃ rest, Text.bytes rest = more := by
  have marked : byteOrderMark <+: Text.bytes cell ++ [] := by
    rw [List.append_nil, ← same]
    exact List.prefix_append _ _
  have nonempty : cell ≠ "" := by
    rintro rfl
    cases same
  obtain ⟨rest, chars⟩ := List.head?_eq_some_iff.mp (Text.startsWithMark_of_prefix nonempty marked)
  refine ⟨String.ofList rest, ?_⟩
  rw [Text.bytes_eq_flatMap, chars, List.flatMap_cons] at same
  rw [Text.bytes_ofList]
  exact (List.append_cancel_left same).symm

/-- Without the mark at its start a record is a record still. -/
theorem exists_unmarked (ascii : dialect.Ascii) {fields : List Spelled}
    (fair : ∀ field ∈ fields, field.Fair dialect) {row : Row}
    (same : fields.map Spelled.content = row.map Text.bytes) :
    ∃ (others : List Spelled) (kept : Row),
      dropMark (rowText dialect fields) = rowText dialect others ∧
        (∀ field ∈ others, field.Fair dialect) ∧
        others.map Spelled.content = kept.map Text.bytes ∧
        (kept.map Text.bytes).flatten ⊆ (row.map Text.bytes).flatten := by
  by_cases marked : byteOrderMark <+: rowText dialect fields
  · obtain ⟨more, others, rfl⟩ := bare_of_marked ascii same marked
    obtain ⟨cell, cells, rfl, head, tail⟩ := List.map_eq_cons_iff.mp same.symm
    obtain ⟨rest, bytes⟩ := exists_of_mark head.symm
    refine ⟨⟨false, more⟩ :: others, rest :: cells, ?_, fair_of_mark fair, ?_, ?_⟩
    · rw [rowText_mark, dropMark_byteOrderMark]
    · rw [List.map_cons, List.map_cons, bytes, tail]
    · rw [List.map_cons, List.map_cons, bytes, head, List.flatten_cons, List.flatten_cons,
        List.append_assoc]
      exact List.subset_append_right _ _
  · exact ⟨fields, row, dropMark_of_unmarked marked, fair, same, List.Subset.refl _⟩

theorem flatten_foldBreaks_subset (record : Record) :
    (record.map foldBreaks).flatten ⊆ record.flatten := by
  intro byte member
  obtain ⟨folded, listed, there⟩ := List.mem_flatten.mp member
  obtain ⟨field, inside, rfl⟩ := List.mem_map.mp listed
  exact List.mem_flatten.mpr ⟨field, inside, (foldBreaks_sublist field).subset there⟩

end Record

namespace BackwardReader

/-- What becomes of NUL characters is decided last. -/
theorem parse_eq_bind (reader : BackwardReader) (frame : Bytes) :
    reader.parse frame =
      (({ reader with nuls := .keep } : BackwardReader).parse frame).bind reader.nuls.apply := by
  unfold parse
  cases scanRecord reader.dialect (dropMark frame) with
  | none => cases reader.nuls <;> rfl
  | some scanned =>
    change (decodeRow reader.encoding scanned.value).bind reader.nuls.apply =
      ((decodeRow reader.encoding scanned.value).bind NulPolicy.keep.apply).bind reader.nuls.apply
    cases decodeRow reader.encoding scanned.value <;> rfl

section

variable {reader : BackwardReader} (proper : reader.dialect.Proper) (ascii : reader.dialect.Ascii)
  (decoded : reader.encoding = .utf8)

include proper ascii decoded

/-- Every record is read, if a NUL in it is not refused. -/
theorem parse_succeeds {fields : List Spelled} (fair : ∀ field ∈ fields, field.Fair reader.dialect)
    {row : Row} (same : fields.map Spelled.content = row.map Text.bytes)
    (clean : reader.nuls = .reject → NulPolicy.firstNul? row = none) :
    ∃ kept, reader.parse (foldBreaks (rowText reader.dialect fields)) = .ok kept := by
  obtain ⟨others, left, unmarked, fairOthers, legible, fewer⟩ := exists_unmarked ascii fair same
  have plain : ({ reader with nuls := .keep } : BackwardReader).Plain := ⟨proper, rfl, decoded⟩
  rw [parse_eq_bind]
  by_cases written : rowText reader.dialect others = []
  · have nothing : ({ reader with nuls := .keep } : BackwardReader).parse
        (foldBreaks (rowText reader.dialect fields)) = .ok [] := by
      rw [parse, dropMark_foldBreaks, unmarked, written]
      rfl
    rw [nothing]
    exact NulPolicy.apply_succeeds fun _ => rfl
  · obtain ⟨folded, contents⟩ := exists_folded_row left
    have parsed := parse_of_dropMark plain fairOthers written unmarked
    rw [legible, ← contents, decodeRow_bytes] at parsed
    rw [parsed]
    apply NulPolicy.apply_succeeds
    intro refused
    have legal := NulPolicy.firstNul?_eq_none_iff.mp (clean refused)
    rw [NulPolicy.firstNul?_eq_none_iff, contents]
    exact fun zero => legal (fewer (flatten_foldBreaks_subset _ zero))

end

/-- A reader after some calls for a record. -/
def afterCalls (reader : BackwardReader) : Nat → BackwardReader
  | 0 => reader
  | calls + 1 => reader.nextRecord.2.afterCalls calls

/-- The records of blocks, each with the offset it starts at, the first block standing at
`offset`. -/
def placed (offset : Nat) : List Block → List (Nat × Bytes)
  | [] => []
  | block :: blocks =>
    let later := placed (offset + (blocksText [block]).length) blocks
    if block.text = [] then later else (offset, block.text) :: later

theorem placed_append (offset : Nat) (blocks others : List Block) :
    placed offset (blocks ++ others) =
      placed offset blocks ++ placed (offset + (blocksText blocks).length) others := by
  induction blocks generalizing offset with
  | nil => rfl
  | cons block blocks ih =>
    have total : (blocksText (block :: blocks)).length =
        (blocksText [block]).length + (blocksText blocks).length := by
      rw [← List.singleton_append, blocksText_append, List.length_append]
    rw [List.cons_append, placed, placed, ih, total, Nat.add_assoc]
    split <;> rfl

theorem texts_placed (offset : Nat) (blocks : List Block) :
    (placed offset blocks).map Prod.snd = (filled blocks).map Block.text := by
  induction blocks generalizing offset with
  | nil => rfl
  | cons block blocks ih =>
    rw [placed, filled]
    by_cases blank : block.text = []
    · rw [if_pos blank, List.filter_cons_of_neg (by simpa using blank), ih, filled]
    · rw [if_neg blank, List.filter_cons_of_pos (by simpa using blank), List.map_cons,
        List.map_cons, ih, filled]

theorem placed_of_blank (offset : Nat) {blocks : List Block}
    (blank : ∀ block ∈ blocks, block.text = []) : placed offset blocks = [] := by
  have texts := texts_placed offset blocks
  rwa [filled_eq_nil blank, List.map_nil, List.map_eq_nil_iff] at texts

theorem placed_split (offset : Nat) (before : List Block) {block : Block} {blanks : List Block}
    (skipped : ∀ blank ∈ blanks, blank.text = []) (written : block.text ≠ []) :
    placed offset (before ++ block :: blanks) =
      placed offset before ++ [(offset + (blocksText before).length, block.text)] := by
  rw [placed_append, placed, if_neg written, placed_of_blank _ skipped]

variable {reader : BackwardReader} {blocks : List Block}

theorem nextRecord_of_ended (ended : reader.nextRecord.1 = .ok none) :
    reader.nextRecord.2.nextRecord.1 = .ok none := by
  unfold nextRecord at ended
  split at ended
  next exhausted => simp [nextRecord, exhausted]
  next running =>
    split at ended
    next step => simp [nextRecord, running, step]
    next offset frame rest step =>
      cases parsed : reader.parse frame <;> simp [parsed, Except.map] at ended

theorem afterCalls_of_ended (ended : reader.nextRecord.1 = .ok none) (calls : Nat) :
    (reader.afterCalls calls).nextRecord.1 = .ok none := by
  induction calls generalizing reader with
  | zero => exact ended
  | succ calls ih => exact ih (nextRecord_of_ended ended)

/-- The calls of a reader tell its records, last one first, and then the end. -/
theorem nextRecord_afterCalls {reader : BackwardReader} {blocks : List Block}
    (apart : reader.dialect.quote ≠ carriageReturn)
    (holds : reader.Holds blocks) (calls : Nat) :
    (reader.afterCalls calls).nextRecord.1 =
      match (placed reader.tail.floor blocks).reverse[calls]? with
      | none => .ok none
      | some (offset, text) => (reader.parse (foldBreaks text)).map fun row =>
          some (offset, row) := by
  rcases nextRecord_of_holds apart holds with
    ⟨blank, ended⟩ | ⟨before, block, blanks, left, split, skipped, written, step, later, floor⟩
  · have nothing : placed reader.tail.floor blocks = [] := placed_of_blank _ blank
    rw [nothing, afterCalls_of_ended ended]
    rfl
  · rw [split, placed_split _ before skipped written, List.reverse_concat]
    -- what is left holds the blocks before, so the later calls are those of a shorter text
    cases calls with
    | zero => rw [afterCalls, step, List.getElem?_cons_zero]
    | succ calls =>
      have rest := nextRecord_afterCalls (by exact apart) later calls
      rw [afterCalls, step, rest, List.getElem?_cons_succ, floor]
      rfl

/-- When every record can be read, the calls tell where the records start. -/
theorem offsets_afterCalls (apart : reader.dialect.quote ≠ carriageReturn)
    (holds : reader.Holds blocks)
    (readable : ∀ record ∈ placed reader.tail.floor blocks,
      ∃ row, reader.parse (foldBreaks record.2) = .ok row) (calls : Nat) :
    (reader.afterCalls calls).nextRecord.1.map (Option.map Prod.fst) =
      .ok ((placed reader.tail.floor blocks).map Prod.fst).reverse[calls]? := by
  rw [nextRecord_afterCalls apart holds, ← List.map_reverse, List.getElem?_map]
  cases found : (placed reader.tail.floor blocks).reverse[calls]? with
  | none => rfl
  | some record =>
    obtain ⟨row, parsed⟩ := readable record (List.mem_reverse.mp (List.mem_of_getElem? found))
    obtain ⟨offset, text⟩ := record
    change ((reader.parse (foldBreaks text)).map _).map _ = _
    rw [parsed]
    rfl

end BackwardReader

namespace Record.Document

open BackwardReader

theorem blocks_cons (dialect : Dialect) (line : Line) (lines : List Line) (last : List Spelled) :
    blocks dialect ⟨line :: lines, last⟩ =
      ⟨rowText dialect line.fields, line.carriage⟩ :: blocks dialect ⟨lines, last⟩ := rfl

theorem texts_placed_blocks (dialect : Dialect) (document : Document) (offset : Nat) :
    (placed offset (document.blocks dialect)).map Prod.snd =
      (document.records dialect).map (rowText dialect) := by
  calc (placed offset (document.blocks dialect)).map Prod.snd
      = ((document.blocks dialect).map Block.text).filter (· ≠ []) := by
        rw [texts_placed, filled, List.filter_map]
        rfl
    _ = (document.records dialect).map (rowText dialect) := by
        rw [texts_blocks, List.filter_map]
        rfl

theorem starts_eq (dialect : Dialect) (document : Document) (offset : Nat) :
    document.starts dialect offset = (placed offset (document.blocks dialect)).map Prod.fst := by
  obtain ⟨lines, last⟩ := document
  induction lines generalizing offset with
  | nil =>
    by_cases blank : rowText dialect last = [] <;>
      simp [starts, lineStarts, linesText, blocks, placed, blank]
  | cons line lines ih =>
    have length : (line.text dialect).length =
        (blocksText [⟨rowText dialect line.fields, line.carriage⟩]).length := by
      cases returns : line.carriage <;>
        simp [Line.text, Line.ending, blocksText, Block.back, returns]
    rw [starts_cons, ih, length, blocks_cons, placed]
    split <;> rfl

end Record.Document

/-- A reader that is to hand out the records of a text. -/
structure BackwardReader.Ready (reader : BackwardReader) (options : BackwardOptions)
    (dialect : Dialect) (document : Document) : Prop where
  dialect_eq : reader.dialect = dialect
  decoded : reader.encoding = .utf8
  nuls_eq : reader.nuls = options.nuls
  fair : document.Fair dialect
  holds : reader.Holds (document.blocks dialect)

namespace BackwardOptions

variable {options : BackwardOptions} {dialect : Dialect} (headed : options.noHeaders = false)
  (decoded : options.encoding = .utf8) (delimiter_eq : options.delimiter = some dialect.delimiter)
  (quote_eq : options.quote = dialect.quote) (proper : dialect.Proper) {document : Document}
  (fair : document.Fair dialect) {content : Bytes}
  (left : dropMark (dropMark content) = document.text dialect)

include headed decoded delimiter_eq quote_eq proper fair left

/-- Opening leaves the records behind the header, each where it stands. -/
theorem openBytes_ready {head : List Spelled} {records : List (List Spelled)}
    (found : document.records dialect = head :: records) {first : Row}
    (start : head.map Spelled.content = first.map Text.bytes) :
    ∃ reader rest, options.openBytes content = .ok reader ∧ reader.Ready options dialect rest ∧
      rest.records dialect = records ∧
      (document.starts dialect (content.length - (document.text dialect).length)).tail =
        rest.starts dialect reader.tail.floor := by
  obtain ⟨ending, rest, skipped, scanned, fairRest, remaining, length, places⟩ :=
    Document.scanRecord_starts proper fair found
  rw [← left, start] at scanned
  have filled : content ≠ [] := by
    rintro rfl
    cases scanned
  have behind := behind_of_scanRecord scanned
  have shorter : (document.text dialect).length ≤ content.length := by
    rw [← left]
    exact ((dropMark_suffix _).trans (dropMark_suffix _)).length_le
  have floor : content.length - (document.text dialect).length + skipped =
      content.length - (rest.text dialect).length := by omega
  have data : (blocksText (rest.blocks dialect)).dropLast = rest.text dialect :=
    Document.dropLast_blocksText_blocks dialect rest
  refine ⟨options.readerOn dialect (some (.ofNames (options.headerNames first))) content
    (rest.text dialect).length, rest, ?_, ⟨rfl, decoded, rfl, fairRest, rfl,
    Document.whole_blocks proper fairRest, (data_readerOn _ behind).trans data.symm⟩, remaining, ?_⟩
  · rw [openBytes, delimiter_eq]
    exact openContent_eq_of_header decoded quote_eq headed filled scanned
  · rw [places, floor]
    rfl

/-- The calls of a reader tell where the records behind the header start, last one first, and then
that there are no more. -/
theorem offsets_of_records (ascii : dialect.Ascii) {first : Row} {rows : List Row}
    (same : (document.records dialect).map (·.map Spelled.content) =
      (first :: rows).map (·.map Text.bytes))
    (clean : options.nuls = .reject → ∀ row ∈ rows, NulPolicy.firstNul? row = none) :
    ∃ reader, options.openBytes content = .ok reader ∧
      ∀ calls, (reader.afterCalls calls).nextRecord.1.map (Option.map Prod.fst) =
        .ok (document.starts dialect
          (content.length - (document.text dialect).length)).tail.reverse[calls]? := by
  obtain ⟨head, records, found, start, later⟩ := List.map_eq_cons_iff.mp same
  obtain ⟨reader, rest, opened, ready, remaining, places⟩ :=
    openBytes_ready headed decoded delimiter_eq quote_eq proper fair left found start
  obtain rfl := ready.dialect_eq
  refine ⟨reader, opened, fun calls => ?_⟩
  rw [places, Document.starts_eq]
  apply BackwardReader.offsets_afterCalls (proper.ne_quote rfl).symm ready.holds
  intro record member
  have written : record.2 ∈ (rest.records reader.dialect).map (rowText reader.dialect) := by
    rw [← Document.texts_placed_blocks reader.dialect rest reader.tail.floor]
    exact List.mem_map_of_mem member
  obtain ⟨fields, listed, text⟩ := List.mem_map.mp written
  have others : fields.map Spelled.content ∈ rows.map (·.map Text.bytes) := by
    rw [← later, ← remaining]
    exact List.mem_map_of_mem listed
  obtain ⟨row, inside, contents⟩ := List.mem_map.mp others
  rw [← text]
  exact BackwardReader.parse_succeeds proper ascii ready.decoded
    (ready.fair fields (Document.mem_records_iff.mp listed).1) contents.symm
    fun refused => clean (ready.nuls_eq ▸ refused) row inside

end BackwardOptions

/-- Line breaks in the header and in a quoted cell, a blank line, and marks in front of the text
and of the last record. -/
def scatteredDocument : Document :=
  ⟨[⟨[⟨true, Text.bytes "h\n"⟩], true⟩, ⟨[], true⟩, ⟨[⟨true, Text.bytes "a\r\n\"b"⟩], false⟩],
    [⟨false, Text.bytes "\uFEFF1"⟩]⟩

def scatteredText : Bytes := Text.bytes "\uFEFF\"h\n\"\r\n\r\n\"a\r\n\"\"b\"\n\uFEFF1"

theorem offsets_of_records_sample :
    ∃ reader, BackwardOptions.openBytes
        { delimiter := some 0x2C, chunkSize := 1, nuls := .reject } scatteredText = .ok reader ∧
      (List.range 3).map (fun calls =>
        (reader.afterCalls calls).nextRecord.1.map (Option.map Prod.fst)) =
          [.ok (some 20), .ok (some 11), .ok none] := by
  have headed : BackwardOptions.noHeaders
      { delimiter := some 0x2C, chunkSize := 1, nuls := .reject } = false := rfl
  have proper : Dialect.Proper ⟨0x2C, 0x22⟩ := ⟨by decide, rfl, rfl⟩
  have fair : scatteredDocument.Fair ⟨0x2C, 0x22⟩ := by decide
  have left : dropMark (dropMark scatteredText) = scatteredDocument.text ⟨0x2C, 0x22⟩ := by decide
  have same : (scatteredDocument.records ⟨0x2C, 0x22⟩).map (·.map Spelled.content) =
      (["h\n"] :: [["a\r\n\"b"], ["\uFEFF1"]]).map (·.map Text.bytes) := by decide
  obtain ⟨reader, opened, offsets⟩ := BackwardOptions.offsets_of_records headed rfl rfl rfl proper
    fair left ⟨by decide, by decide⟩ same (by decide)
  refine ⟨reader, opened, ?_⟩
  simp only [offsets]
  decide

/-- A header that is a mark only, and one record. -/
def markHeader : Document :=
  ⟨[⟨[⟨false, Text.bytes "\uFEFF"⟩], false⟩, ⟨[⟨false, Text.bytes "1"⟩], false⟩], []⟩

/-- A header, and a record with a NUL. -/
def nulRecord : Document :=
  ⟨[⟨[⟨false, Text.bytes "h"⟩], false⟩, ⟨[⟨false, Text.bytes "\x00"⟩], false⟩], []⟩

theorem nextRecord_of_markHeader :
    ∃ reader, BackwardOptions.openBytes { delimiter := some 0x2C }
        (markHeader.text ⟨0x2C, 0x22⟩) = .ok reader ∧ reader.nextRecord.1 = .ok none := by
  have headed : BackwardOptions.noHeaders { delimiter := some 0x2C } = false := rfl
  have bare : Document.Fair ⟨0x2C, 0x22⟩
      ⟨[⟨[], false⟩, ⟨[⟨false, Text.bytes "1"⟩], false⟩], []⟩ := by decide
  obtain ⟨reader, rest, opened, ready, remaining, _⟩ :=
    BackwardOptions.openBytes_ready headed rfl rfl rfl ⟨by decide, rfl, rfl⟩ bare
      (show dropMark (dropMark (markHeader.text ⟨0x2C, 0x22⟩)) = _ by decide)
      (show _ = [⟨false, Text.bytes "1"⟩] :: [] by decide) (show _ = ["1"].map _ from rfl)
  have texts := Document.texts_placed_blocks ⟨0x2C, 0x22⟩ rest reader.tail.floor
  rw [remaining, List.map_nil, List.map_eq_nil_iff] at texts
  have told := reader.nextRecord_afterCalls (by rw [ready.dialect_eq]; decide) ready.holds 0
  rw [texts] at told
  exact ⟨reader, opened, told⟩

theorem nextRecord_of_nulRecord :
    ∃ reader, BackwardOptions.openBytes { delimiter := some 0x2C, nuls := .reject }
        (nulRecord.text ⟨0x2C, 0x22⟩) = .ok reader ∧
      reader.nextRecord.1 = .error (.nulByte 0) := by
  have headed : BackwardOptions.noHeaders { delimiter := some 0x2C, nuls := .reject } = false := rfl
  have proper : Dialect.Proper ⟨0x2C, 0x22⟩ := ⟨by decide, rfl, rfl⟩
  have fair : nulRecord.Fair ⟨0x2C, 0x22⟩ := by decide
  obtain ⟨reader, rest, opened, ready, remaining, _⟩ :=
    BackwardOptions.openBytes_ready headed rfl rfl rfl proper fair
      (show dropMark (dropMark (nulRecord.text ⟨0x2C, 0x22⟩)) = _ by decide)
      (show _ = [⟨false, Text.bytes "h"⟩] :: [[⟨false, Text.bytes "\x00"⟩]] by decide)
      (show _ = ["h"].map _ from rfl)
  have texts := Document.texts_placed_blocks ⟨0x2C, 0x22⟩ rest reader.tail.floor
  rw [remaining] at texts
  obtain ⟨⟨offset, text⟩, others, split, written, last⟩ := List.map_eq_cons_iff.mp texts
  rw [List.map_nil, List.map_eq_nil_iff] at last
  obtain rfl : text = Text.bytes "\x00" := written
  have told := reader.nextRecord_afterCalls (by rw [ready.dialect_eq]; decide) ready.holds 0
  have scanned : scanRecord ⟨0x2C, 0x22⟩ (dropMark (foldBreaks (Text.bytes "\x00"))) =
      some ⟨["\x00"].map Text.bytes, .inputEnd, []⟩ :=
    scanRecord_rowText proper (fair [⟨false, Text.bytes "\x00"⟩] (by decide)) (by decide)
      (show Closes [] by simp [Closes])
  have refused : reader.parse (foldBreaks (Text.bytes "\x00")) = .error (.nulByte 0) := by
    rw [BackwardReader.parse, ready.dialect_eq, scanned, ready.decoded, ready.nuls_eq]
    simp only [decodeRow_bytes]
    decide
  rw [split, last, List.reverse_singleton, List.getElem?_cons_zero] at told
  change _ = (reader.parse (foldBreaks (Text.bytes "\x00"))).map _ at told
  rw [refused] at told
  exact ⟨reader, opened, told⟩

/-- The mark is no header, so the record behind it is; and a NUL that is refused is reported in
place of an offset. -/
theorem offsets_of_records_ne :
    (markHeader.Fair ⟨0x2C, 0x22⟩ ∧
      (markHeader.records ⟨0x2C, 0x22⟩).map (·.map Spelled.content) =
        [["\uFEFF"], ["1"]].map (·.map Text.bytes) ∧
      (markHeader.starts ⟨0x2C, 0x22⟩ 0).tail = [4] ∧
      ∃ reader, BackwardOptions.openBytes { delimiter := some 0x2C }
          (markHeader.text ⟨0x2C, 0x22⟩) = .ok reader ∧ reader.nextRecord.1 = .ok none) ∧
    (nulRecord.Fair ⟨0x2C, 0x22⟩ ∧
      (nulRecord.records ⟨0x2C, 0x22⟩).map (·.map Spelled.content) =
        [["h"], ["\x00"]].map (·.map Text.bytes) ∧
      (nulRecord.starts ⟨0x2C, 0x22⟩ 0).tail = [2] ∧
      ∃ reader, BackwardOptions.openBytes { delimiter := some 0x2C, nuls := .reject }
          (nulRecord.text ⟨0x2C, 0x22⟩) = .ok reader ∧
        reader.nextRecord.1 = .error (.nulByte 0)) :=
  ⟨⟨by decide, by decide, by decide, nextRecord_of_markHeader⟩,
    by decide, by decide, by decide, nextRecord_of_nulRecord⟩

end ResumableCsv
