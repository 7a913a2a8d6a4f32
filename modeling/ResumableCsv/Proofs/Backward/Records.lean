import ResumableCsv.Proofs.Backward.Blocks
import ResumableCsv.Proofs.Text.Utf8

/-!
The row a frame is parsed as. It is the record of the frame, cell for cell, only when no cell has a
carriage return in front of a line feed and the frame does not start with a byte-order mark: each
frame loses a mark at its start as if it were the start of the input.
-/

namespace ResumableCsv

open Record

/-- A line break of two characters. -/
def crlf : Bytes := [carriageReturn, lineFeed]

theorem foldBreaks_append {front : Bytes} (back : Bytes)
    (apart : front.getLast? ≠ some carriageReturn ∨ back.head? ≠ some lineFeed) :
    foldBreaks (front ++ back) = foldBreaks front ++ foldBreaks back := by
  induction front with
  | nil => rfl
  | cons byte front ih =>
    cases front with
    | nil =>
      rw [List.cons_append, List.nil_append, foldBreaks, if_neg, foldBreaks, if_neg]
      · rfl
      · simp
      · rintro ⟨rfl, found⟩
        rcases apart with last | first
        · exact last rfl
        · exact first found
    | cons next front =>
      have later := ih (by rwa [List.getLast?_cons_cons] at apart)
      have heads : (next :: front ++ back).head? = (next :: front).head? := rfl
      rw [List.cons_append, foldBreaks, foldBreaks, later, heads]
      by_cases broken : byte = carriageReturn ∧ (next :: front).head? = some lineFeed
      · rw [if_pos broken, if_pos broken]
      · rw [if_neg broken, if_neg broken]
        rfl

theorem foldBreaks_of_no_carriageReturn {text : Bytes} (inner : carriageReturn ∉ text) :
    foldBreaks text = text := by
  induction text with
  | nil => rfl
  | cons byte rest ih =>
    rw [foldBreaks_cons (by rintro rfl; simp at inner), ih (by simp_all)]

theorem foldBreaks_sublist (text : Bytes) : (foldBreaks text).Sublist text := by
  induction text with
  | nil => exact .slnil
  | cons byte rest ih =>
    rw [foldBreaks]
    split
    · exact ih.cons byte
    · exact ih.cons_cons byte

theorem length_foldBreaks_le (text : Bytes) : (foldBreaks text).length ≤ text.length :=
  (foldBreaks_sublist text).length_le

theorem foldBreaks_eq_nil {text : Bytes} (nothing : foldBreaks text = []) : text = [] := by
  induction text with
  | nil => rfl
  | cons byte rest ih =>
    rw [foldBreaks] at nothing
    split at nothing
    next broken =>
      rw [ih nothing] at broken
      cases broken.2
    next => cases nothing

/-- Folding changes just the texts with a line break of two characters. -/
theorem foldBreaks_eq_self_iff {text : Bytes} : foldBreaks text = text ↔ ¬crlf <:+: text := by
  induction text with
  | nil => simp [foldBreaks, crlf]
  | cons byte rest ih =>
    rw [foldBreaks, List.infix_cons_iff]
    split
    next broken =>
      have shorter := length_foldBreaks_le rest
      have leads : crlf <+: byte :: rest := by
        obtain ⟨more, same⟩ := List.head?_eq_some_iff.mp broken.2
        rw [broken.1, same]
        exact ⟨more, rfl⟩
      constructor
      · intro same
        rw [same, List.length_cons] at shorter
        omega
      · intro whole
        exact absurd (.inl leads) whole
    next whole =>
      have unled : ¬crlf <+: byte :: rest := by
        rintro ⟨more, same⟩
        obtain ⟨rfl, tail⟩ := List.cons.inj same
        exact whole ⟨rfl, by rw [← tail]; rfl⟩
      rw [List.cons_inj_right, ih]
      simp [unled]

/-- What becomes of the bytes of a cell are the bytes of a cell. -/
theorem exists_folded (cell : String) :
    ∃ folded, Text.bytes folded = foldBreaks (Text.bytes cell) := by
  suffices all : ∀ chars : List Char, ∃ folded : List Char,
      folded.flatMap String.utf8EncodeChar = foldBreaks (chars.flatMap String.utf8EncodeChar) by
    obtain ⟨folded, same⟩ := all cell.toList
    exact ⟨String.ofList folded, by rw [Text.bytes_ofList, same, Text.bytes_eq_flatMap]⟩
  intro chars
  induction chars with
  | nil => exact ⟨[], rfl⟩
  | cons c chars ih =>
    obtain ⟨folded, same⟩ := ih
    rw [List.flatMap_cons]
    rcases Text.encodeChar_cases c with ⟨_, single⟩ | ⟨_, upper⟩
    · rw [single, List.cons_append, List.nil_append, foldBreaks]
      split
      · exact ⟨folded, same⟩
      · exact ⟨c :: folded, by rw [List.flatMap_cons, single, same]; rfl⟩
    · have inner : carriageReturn ∉ String.utf8EncodeChar c := by
        intro member
        exact absurd (upper _ member) (by decide)
      rw [foldBreaks_append, foldBreaks_of_no_carriageReturn inner]
      · exact ⟨c :: folded, by rw [List.flatMap_cons, same]⟩
      · exact .inl fun last => inner (List.mem_of_getLast? last)

theorem exists_folded_row (row : Row) :
    ∃ folded : Row, folded.map Text.bytes = (row.map Text.bytes).map foldBreaks := by
  induction row with
  | nil => exact ⟨[], rfl⟩
  | cons cell row ih =>
    obtain ⟨first, same⟩ := exists_folded cell
    obtain ⟨others, rest⟩ := ih
    exact ⟨first :: others, by simp [same, rest]⟩

namespace Record

variable {dialect : Dialect}

def Spelled.folded (field : Spelled) : Spelled := ⟨field.quoted, foldBreaks field.content⟩

theorem head?_doubled (quote : UInt8) (content : Bytes) :
    (doubled quote content).head? = content.head? := by
  cases content with
  | nil => rfl
  | cons byte rest =>
    rw [doubled, List.flatMap_cons]
    split <;> rfl

theorem foldBreaks_doubled {quote : UInt8} (carriage : quote ≠ carriageReturn)
    (content : Bytes) :
    foldBreaks (doubled quote content) = doubled quote (foldBreaks content) := by
  induction content with
  | nil => rfl
  | cons byte rest ih =>
    rw [doubled, List.flatMap_cons, ← doubled, foldBreaks]
    by_cases same : byte = quote
    · rw [if_pos same, same, if_neg fun both => carriage both.1, List.cons_append, List.cons_append,
        foldBreaks_cons carriage, List.nil_append, foldBreaks_cons carriage, ih, doubled, doubled,
        List.flatMap_cons, if_pos rfl]
      rfl
    · rw [if_neg same, List.cons_append, List.nil_append, foldBreaks, head?_doubled, ih]
      split
      · rfl
      · rw [doubled, doubled, List.flatMap_cons, if_neg same]
        rfl

theorem fair_folded {field : Spelled} (fair : field.Fair dialect) : field.folded.Fair dialect := by
  intro bare
  have plain := fair bare
  rw [Spelled.folded, foldBreaks_of_no_lineFeed]
  · exact plain
  · intro member
    exact absurd (needsQuotes_eq_false_iff.mp plain _ member).2.2 (by decide)

theorem foldBreaks_text (proper : dialect.Proper) {field : Spelled} (fair : field.Fair dialect) :
    foldBreaks (field.text dialect) = field.folded.text dialect := by
  obtain ⟨quoted, content⟩ := field
  have carriage : carriageReturn ≠ dialect.quote := proper.ne_quote rfl
  have feed : lineFeed ≠ dialect.quote := proper.ne_quote rfl
  cases quoted with
  | false => rfl
  | true =>
    simp only [Spelled.text, Spelled.folded, if_true]
    rw [foldBreaks_cons carriage.symm, foldBreaks_append, foldBreaks_doubled carriage.symm,
      foldBreaks_cons carriage.symm]
    · rfl
    · exact .inr fun found => feed (Option.some.inj found).symm

/-- Folding the text of a record folds its fields. -/
theorem foldBreaks_rowText (proper : dialect.Proper) {fields : List Spelled}
    (fair : ∀ field ∈ fields, field.Fair dialect) :
    foldBreaks (rowText dialect fields) = rowText dialect (fields.map Spelled.folded) := by
  induction fields with
  | nil => rfl
  | cons field fields ih =>
    have first := foldBreaks_text proper (fair field (by simp))
    have later := ih fun other member => fair other (by simp [member])
    by_cases lone : fields = []
    · subst lone
      exact first
    · rw [rowText_cons dialect field lone, List.map_cons,
        rowText_cons dialect field.folded (by simpa using lone), foldBreaks_append,
        foldBreaks_cons (proper.ne_delimiter rfl).symm, first, later]
      exact .inr fun found => proper.ne_delimiter rfl (Option.some.inj found).symm

end Record

theorem prefix_foldBreaks_iff {front text : Bytes}
    (inner : ∀ byte ∈ front, isTerminator byte = false) :
    front <+: foldBreaks text ↔ front <+: text := by
  induction front generalizing text with
  | nil => simp
  | cons byte front ih =>
    have first := inner byte (by simp)
    cases text with
    | nil => simp [foldBreaks]
    | cons head rest =>
      rw [foldBreaks]
      split
      next broken =>
        obtain ⟨more, same⟩ := List.head?_eq_some_iff.mp broken.2
        rw [same, foldBreaks_lineFeed, List.cons_prefix_cons, List.cons_prefix_cons, broken.1]
        constructor <;> rintro ⟨rfl, _⟩ <;> exact absurd first (by decide)
      next =>
        rw [List.cons_prefix_cons, List.cons_prefix_cons,
          ih fun other member => inner other (by simp [member])]

theorem foldBreaks_mark (text : Bytes) :
    foldBreaks (byteOrderMark ++ text) = byteOrderMark ++ foldBreaks text := by
  rw [foldBreaks_append, foldBreaks_of_no_carriageReturn]
  · decide
  · exact .inl (by decide)

/-- A mark at the start is lost with and without folding. -/
theorem dropMark_foldBreaks (text : Bytes) :
    dropMark (foldBreaks text) = foldBreaks (dropMark text) := by
  by_cases marked : byteOrderMark <+: text
  · obtain ⟨rest, rfl⟩ := marked
    rw [foldBreaks_mark, dropMark_byteOrderMark, dropMark_byteOrderMark]
  · rw [dropMark_of_unmarked marked, dropMark_of_unmarked]
    rwa [prefix_foldBreaks_iff (Text.forall_mem_mark (by decide) (by decide) (by decide))]

namespace Record

variable {dialect : Dialect}

theorem rowText_mark (more : Bytes) (others : List Spelled) :
    rowText dialect (⟨false, byteOrderMark ++ more⟩ :: others) =
      byteOrderMark ++ rowText dialect (⟨false, more⟩ :: others) := by
  cases others <;> simp [rowText, Spelled.text]

theorem fair_of_mark {more : Bytes} {others : List Spelled}
    (fair : ∀ field ∈ (⟨false, byteOrderMark ++ more⟩ :: others : List Spelled),
      field.Fair dialect) :
    ∀ field ∈ (⟨false, more⟩ :: others : List Spelled), field.Fair dialect := by
  intro field member
  rcases List.mem_cons.mp member with rfl | member
  · intro _
    have plain := fair ⟨false, byteOrderMark ++ more⟩ (by simp) rfl
    rw [needsQuotes_eq_false_iff] at plain ⊢
    exact fun byte there => plain byte (List.mem_append_right _ there)
  · exact fair field (by simp [member])

/-- A record starts with a mark only when its first field is bare and does. -/
theorem bare_of_marked (ascii : dialect.Ascii) {fields : List Spelled} {row : Row}
    (same : fields.map Spelled.content = row.map Text.bytes)
    (marked : byteOrderMark <+: rowText dialect fields) :
    ∃ more others, fields = ⟨false, byteOrderMark ++ more⟩ :: others := by
  have head := head?_of_marked marked
  rcases fields with _ | ⟨⟨quoted, content⟩, others⟩
  · cases head
  · obtain ⟨cell, cells, rfl, bytes, _⟩ := List.map_eq_cons_iff.mp same.symm
    cases quoted with
    | true =>
      have starts : dialect.quote = 0xEF := by
        cases others <;> simpa [rowText, Spelled.text] using head
      have small := ascii.quote_small
      rw [starts] at small
      exact absurd small (by decide)
    | false =>
      have leads : byteOrderMark <+: content := by
        by_cases lone : others = []
        · subst lone
          exact marked
        · rw [rowText_cons dialect _ lone] at marked head
          change byteOrderMark <+: content ++ _ at marked
          by_cases blank : cell = ""
          · subst blank
            rw [show content = [] from bytes.symm] at head
            have starts : dialect.delimiter = 0xEF := Option.some.inj head
            have small := ascii.delimiter_small
            rw [starts] at small
            exact absurd small (by decide)
          · rw [show content = Text.bytes cell from bytes.symm] at marked ⊢
            exact Text.prefix_of_startsWithMark (Text.startsWithMark_of_prefix blank marked)
      obtain ⟨more, rfl⟩ := leads
      exact ⟨more, others, rfl⟩

end Record

namespace BackwardReader

/-- A reader that takes the rows of its frames as they are. -/
structure Plain (reader : BackwardReader) : Prop where
  proper : reader.dialect.Proper
  kept : reader.nuls = .keep
  decoded : reader.encoding = .utf8

variable {reader : BackwardReader} (plain : reader.Plain) {fields : List Spelled}
  (fair : ∀ field ∈ fields, field.Fair reader.dialect)

include plain fair

theorem parse_of_dropMark (written : rowText reader.dialect fields ≠ []) {frame : Bytes}
    (left : dropMark frame = rowText reader.dialect fields) :
    reader.parse (foldBreaks frame) =
      decodeRow .utf8 ((fields.map Spelled.content).map foldBreaks) := by
  have folded : ∀ field ∈ fields.map Spelled.folded, field.Fair reader.dialect := by
    intro field member
    obtain ⟨origin, there, rfl⟩ := List.mem_map.mp member
    exact fair_folded (fair origin there)
  have text := foldBreaks_rowText plain.proper fair
  have some_text : rowText reader.dialect (fields.map Spelled.folded) ≠ [] := by
    intro nothing
    rw [nothing] at text
    exact written (foldBreaks_eq_nil text)
  have scanned := scanRecord_rowText plain.proper folded some_text (show Closes [] by simp [Closes])
  rw [List.append_nil] at scanned
  rw [parse, dropMark_foldBreaks, left, text, scanned, plain.decoded, plain.kept]
  have contents : (fields.map Spelled.folded).map Spelled.content =
      (fields.map Spelled.content).map foldBreaks := by
    simp [Function.comp_def, Spelled.folded]
  rw [contents]
  change (decodeRow .utf8 ((fields.map Spelled.content).map foldBreaks)).bind
    NulPolicy.keep.apply = _
  cases decodeRow .utf8 ((fields.map Spelled.content).map foldBreaks) <;> rfl

/-- Only the fields without line breaks of two characters are read back. -/
theorem parse_eq_ok_iff_of_dropMark (written : rowText reader.dialect fields ≠ []) {frame : Bytes}
    (left : dropMark frame = rowText reader.dialect fields) {row : Row}
    (same : fields.map Spelled.content = row.map Text.bytes) :
    reader.parse (foldBreaks frame) = .ok row ↔ ∀ field ∈ fields, ¬crlf <:+: field.content := by
  rw [parse_of_dropMark plain fair written left, decodeRow_eq_ok_iff, ← same]
  simp [← foldBreaks_eq_self_iff]

theorem parse_of_marked (ascii : reader.dialect.Ascii) {row : Row}
    (same : fields.map Spelled.content = row.map Text.bytes)
    (marked : byteOrderMark <+: rowText reader.dialect fields) :
    reader.parse (foldBreaks (rowText reader.dialect fields)) ≠ .ok row := by
  obtain ⟨more, others, rfl⟩ := bare_of_marked ascii same marked
  obtain ⟨cell, cells, rfl, bytes, _⟩ := List.map_eq_cons_iff.mp same.symm
  have left : dropMark (rowText reader.dialect (⟨false, byteOrderMark ++ more⟩ :: others)) =
      rowText reader.dialect (⟨false, more⟩ :: others) := by
    rw [rowText_mark, dropMark_byteOrderMark]
  intro parsed
  by_cases written : rowText reader.dialect (⟨false, more⟩ :: others) = []
  · rw [parse, dropMark_foldBreaks, left, written] at parsed
    cases parsed
  · rw [parse_of_dropMark plain (fair_of_mark fair) written left, decodeRow_eq_ok_iff] at parsed
    have first : foldBreaks more = Text.bytes cell := (List.cons.inj parsed).1
    have shorter := length_foldBreaks_le more
    rw [first, bytes, List.length_append] at shorter
    have positive : 0 < byteOrderMark.length := by decide
    omega

/-- What keeps a record the same when it is read backward. -/
theorem parse_rowText_eq_ok_iff (ascii : reader.dialect.Ascii)
    (written : rowText reader.dialect fields ≠ []) {row : Row}
    (same : fields.map Spelled.content = row.map Text.bytes) :
    reader.parse (foldBreaks (rowText reader.dialect fields)) = .ok row ↔
      (∀ field ∈ fields, ¬crlf <:+: field.content) ∧
        ¬byteOrderMark <+: rowText reader.dialect fields := by
  by_cases marked : byteOrderMark <+: rowText reader.dialect fields
  · simp [parse_of_marked plain fair ascii same marked, marked]
  · rw [parse_eq_ok_iff_of_dropMark plain fair written (dropMark_of_unmarked marked) same]
    simp [marked]

end BackwardReader

namespace BackwardReader

theorem rows_of_next_none {reader : BackwardReader} (ended : reader.next.1 = none) :
    reader.rows = [] := by
  rw [rows, pull]
  simp only [reduceCtorEq, if_false]
  split
  next => rfl
  next item rest step =>
    rw [step] at ended
    cases ended

theorem rows_of_next_some {reader rest : BackwardReader} {item : Except Error Row}
    (step : reader.next = (some item, rest)) : reader.rows = item :: rest.rows := by
  rw [rows, pull]
  simp only [reduceCtorEq, if_false]
  split
  next other =>
    rw [step] at other
    cases other
  next other =>
    rw [step] at other
    cases other
    rfl

theorem rows_of_nextRecord_none {reader : BackwardReader}
    (ended : reader.nextRecord.1 = .ok none) : reader.rows = [] := by
  apply rows_of_next_none
  unfold next
  split <;> simp_all

theorem rows_of_nextRecord_some {reader rest : BackwardReader} {offset : Nat} {row : Row}
    (step : reader.nextRecord = (.ok (some (offset, row)), rest)) :
    reader.rows = .ok row :: rest.rows := by
  apply rows_of_next_some
  rw [next, step]

/-- The items up to the first error, and that error. -/
def upToError : List (Except Error Row) → List (Except Error Row)
  | [] => []
  | .error error :: _ => [.error error]
  | .ok row :: items => .ok row :: upToError items

theorem upToError_eq_iff {items : List (Except Error Row)} {rows : List Row} :
    upToError items = rows.map .ok ↔ items = rows.map .ok := by
  induction items generalizing rows with
  | nil => rfl
  | cons item items ih =>
    cases item with
    | error error => cases rows <;> simp [upToError]
    | ok row => cases rows <;> simp [upToError, ih]

/-- A reader hands out the records of its blocks, last one first, up to one that cannot be read. -/
theorem rows_of_holds {reader : BackwardReader} {blocks : List Block}
    (apart : reader.dialect.quote ≠ carriageReturn) (holds : reader.Holds blocks) :
    reader.rows = upToError
      ((filled blocks).reverse.map fun block => reader.parse (foldBreaks block.text)) := by
  induction same : filled blocks using List.reverseRecOn generalizing reader blocks with
  | nil =>
    rcases nextRecord_of_holds apart holds with
      ⟨_, ended⟩ | ⟨before, block, _, _, split, skipped, written, _⟩
    · exact rows_of_nextRecord_none ended
    · rw [split, filled_split before skipped written] at same
      simp at same
  | append_singleton others last ih =>
    rcases nextRecord_of_holds apart holds with
      ⟨blank, _⟩ | ⟨before, block, _, left, split, skipped, written, step, later, _⟩
    · rw [filled_eq_nil blank] at same
      simp at same
    · rw [split, filled_split before skipped written] at same
      obtain ⟨rfl, single⟩ := List.append_inj' same rfl
      obtain rfl := List.head_eq_of_cons_eq single
      rw [List.reverse_append, List.reverse_singleton, List.singleton_append, List.map_cons]
      cases parsed : reader.parse (foldBreaks block.text) with
      | error error =>
        have taken : reader.next =
            (some (.error error), { reader with tail := left, exhausted := true }) := by
          rw [next, step, parsed]
          rfl
        have ended :
            ({ reader with tail := left, exhausted := true } : BackwardReader).rows = [] := by
          apply rows_of_next_none
          simp [next, nextRecord]
        rw [rows_of_next_some taken, ended, upToError]
      | ok row =>
        have taken : reader.next = (some (.ok row), { reader with tail := left }) := by
          rw [next, step, parsed]
          rfl
        rw [rows_of_next_some taken, ih (by exact apart) later rfl, upToError]
        rfl

end BackwardReader

end ResumableCsv
