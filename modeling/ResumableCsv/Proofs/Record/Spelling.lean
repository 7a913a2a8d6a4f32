import ResumableCsv.Record.Render

/-!
How a text spells the fields of a record, and that scanning such a spelling gives the fields back:
bare fields stand as they are, quoted ones stand between quotes with every quote written twice. A
record may be spelled in many ways; what is written is one of them.
-/

namespace ResumableCsv

/-- The marks of a dialect are told apart from each other and from line terminators. -/
structure Dialect.Proper (dialect : Dialect) : Prop where
  distinct : dialect.delimiter ≠ dialect.quote
  delimiter_inner : Record.isTerminator dialect.delimiter = false
  quote_inner : Record.isTerminator dialect.quote = false

theorem Dialect.Proper.ne_delimiter {dialect : Dialect} (proper : dialect.Proper) {byte : UInt8}
    (terminator : Record.isTerminator byte = true) : byte ≠ dialect.delimiter := by
  rintro rfl
  rw [proper.delimiter_inner] at terminator
  cases terminator

theorem Dialect.Proper.ne_quote {dialect : Dialect} (proper : dialect.Proper) {byte : UInt8}
    (terminator : Record.isTerminator byte = true) : byte ≠ dialect.quote := by
  rintro rfl
  rw [proper.quote_inner] at terminator
  cases terminator

structure Dialect.Ascii (dialect : Dialect) : Prop where
  delimiter_small : dialect.delimiter.toNat < 0x80
  quote_small : dialect.quote.toNat < 0x80

namespace Record

structure Spelled where
  quoted : Bool
  content : Bytes
deriving DecidableEq, Repr

def doubled (quote : UInt8) (content : Bytes) : Bytes :=
  content.flatMap fun byte => if byte = quote then [byte, byte] else [byte]

def Spelled.text (dialect : Dialect) (field : Spelled) : Bytes :=
  if field.quoted then dialect.quote :: (doubled dialect.quote field.content ++ [dialect.quote])
  else field.content

/-- A field may stand bare only when nothing in it asks for quotes. -/
def Spelled.Fair (dialect : Dialect) (field : Spelled) : Prop :=
  field.quoted = false → needsQuotes dialect field.content = false

instance (dialect : Dialect) (field : Spelled) : Decidable (field.Fair dialect) :=
  inferInstanceAs (Decidable (field.quoted = false → needsQuotes dialect field.content = false))

/-- The fields of one record between delimiters, without a terminator. -/
def rowText (dialect : Dialect) : List Spelled → Bytes
  | [] => []
  | [field] => field.text dialect
  | field :: rest => field.text dialect ++ dialect.delimiter :: rowText dialect rest

/-- What scanning stops at in front of some text, and the text behind that. -/
def stopAt (dialect : Dialect) : Bytes → Ending × Bytes
  | [] => (.inputEnd, [])
  | byte :: rest => (if byte = dialect.delimiter then .delimiter else .terminator, rest)

/-- A field ends in front of such a text. -/
def Stops (dialect : Dialect) (tail : Bytes) : Prop :=
  ∀ byte ∈ tail.head?, byte = dialect.delimiter ∨ isTerminator byte = true

/-- A record ends in front of such a text. -/
def Closes (tail : Bytes) : Prop := ∀ byte ∈ tail.head?, isTerminator byte = true

theorem needsQuotes_cons {dialect : Dialect} {byte : UInt8} {rest : Bytes} :
    needsQuotes dialect (byte :: rest) = false ↔
      (byte ≠ dialect.delimiter ∧ byte ≠ dialect.quote ∧ isTerminator byte = false) ∧
        needsQuotes dialect rest = false := by
  simp [needsQuotes, and_assoc]

theorem needsQuotes_eq_false_iff {dialect : Dialect} {content : Bytes} :
    needsQuotes dialect content = false ↔
      ∀ byte ∈ content,
        byte ≠ dialect.delimiter ∧ byte ≠ dialect.quote ∧ isTerminator byte = false := by
  simp [needsQuotes, and_assoc]

theorem rowText_cons (dialect : Dialect) (field : Spelled) {rest : List Spelled}
    (more : rest ≠ []) :
    rowText dialect (field :: rest) =
      field.text dialect ++ dialect.delimiter :: rowText dialect rest := by
  cases rest with
  | nil => exact absurd rfl more
  | cons => rfl

theorem stops_delimiter (dialect : Dialect) (rest : Bytes) :
    Stops dialect (dialect.delimiter :: rest) := by
  intro byte found
  cases found
  exact .inl rfl

theorem Closes.stops {tail : Bytes} (closes : Closes tail) (dialect : Dialect) :
    Stops dialect tail :=
  fun byte found => .inr (closes byte found)

theorem stopAt_of_closes {dialect : Dialect} (proper : dialect.Proper) {tail : Bytes}
    (closes : Closes tail) : (stopAt dialect tail).1 ≠ .delimiter := by
  cases tail with
  | nil => simp [stopAt]
  | cons byte rest =>
    have differs := proper.ne_delimiter (closes byte rfl)
    simp [stopAt, differs]

/-- In front of an end of field every place but the inside of quotes comes to the same end. -/
theorem scanField_stop {dialect : Dialect} (proper : dialect.Proper) {place : Place} {tail : Bytes}
    (outside : place ≠ .quoted) (stops : Stops dialect tail) :
    scanField dialect place tail = ⟨[], (stopAt dialect tail).1, (stopAt dialect tail).2⟩ := by
  cases tail with
  | nil => simp [scanField, stopAt]
  | cons byte rest =>
    have ends := stops byte rfl
    have unquoted : byte ≠ dialect.quote := by
      rintro rfl
      rcases ends with same | terminator
      · exact proper.distinct same.symm
      · exact proper.ne_quote terminator rfl
    cases place <;> by_cases same : byte = dialect.delimiter <;>
      simp_all [scanField, stopAt]

theorem scanField_bare {dialect : Dialect} (proper : dialect.Proper) {content tail : Bytes}
    (plain : needsQuotes dialect content = false) (stops : Stops dialect tail) :
    scanField dialect .bare (content ++ tail) =
      ⟨content, (stopAt dialect tail).1, (stopAt dialect tail).2⟩ := by
  induction content with
  | nil => exact scanField_stop proper (by decide) stops
  | cons byte rest ih =>
    obtain ⟨⟨apart, _, inner⟩, later⟩ := needsQuotes_cons.mp plain
    simp [scanField, apart, inner, ih later, Scanned.push]

theorem scanField_quoted {dialect : Dialect} (proper : dialect.Proper) {content tail : Bytes}
    (stops : Stops dialect tail) :
    scanField dialect .quoted (doubled dialect.quote content ++ dialect.quote :: tail) =
      ⟨content, (stopAt dialect tail).1, (stopAt dialect tail).2⟩ := by
  induction content with
  | nil =>
    simp only [doubled, List.flatMap_nil, List.nil_append, scanField, if_true]
    exact scanField_stop proper (by decide) stops
  | cons byte rest ih =>
    simp only [doubled, List.flatMap_cons] at ih ⊢
    by_cases same : byte = dialect.quote
    · simp [scanField, same, ih, Scanned.push]
    · simp [scanField, same, ih, Scanned.push]

theorem scanField_text {dialect : Dialect} (proper : dialect.Proper) {field : Spelled}
    {tail : Bytes} (fair : field.Fair dialect) (stops : Stops dialect tail) :
    scanField dialect .fieldStart (field.text dialect ++ tail) =
      ⟨field.content, (stopAt dialect tail).1, (stopAt dialect tail).2⟩ := by
  rcases field with ⟨quoted, content⟩
  cases quoted with
  | true =>
    have inner : scanField dialect .quoted
        (doubled dialect.quote content ++ dialect.quote :: tail) = _ :=
      scanField_quoted proper stops
    simpa [Spelled.text, scanField] using inner
  | false =>
    have plain : needsQuotes dialect content = false := fair rfl
    cases content with
    | nil => exact scanField_stop proper (by decide) stops
    | cons byte rest =>
      obtain ⟨⟨apart, unquoted, inner⟩, later⟩ := needsQuotes_cons.mp plain
      simp [Spelled.text, scanField, apart, unquoted, inner, scanField_bare proper later stops,
        Scanned.push]

theorem scanFields_rowText {dialect : Dialect} (proper : dialect.Proper) {fields : List Spelled}
    {tail : Bytes} (nonempty : fields ≠ []) (fair : ∀ field ∈ fields, field.Fair dialect)
    (closes : Closes tail) :
    scanFields dialect (rowText dialect fields ++ tail) =
      ⟨fields.map Spelled.content, (stopAt dialect tail).1, (stopAt dialect tail).2⟩ := by
  induction fields with
  | nil => exact absurd rfl nonempty
  | cons field rest ih =>
    have first := fair field (by simp)
    cases rest with
    | nil =>
      rw [scanFields]
      simp [rowText, scanField_text proper first (closes.stops dialect),
        stopAt_of_closes proper closes]
    | cons next more =>
      have later := ih (by simp) (fun other member => fair other (by simp [member]))
      rw [rowText_cons dialect field (by simp), List.append_assoc, List.cons_append, scanFields,
        scanField_text proper first (stops_delimiter dialect _)]
      simp [stopAt, later]

theorem head_text {dialect : Dialect} (proper : dialect.Proper) {field : Spelled}
    (fair : field.Fair dialect) :
    ∀ byte ∈ (field.text dialect).head?, isTerminator byte = false := by
  rcases field with ⟨quoted, content⟩
  intro byte found
  cases quoted with
  | true =>
    cases found
    exact proper.quote_inner
  | false =>
    have member : byte ∈ content := List.mem_of_mem_head? found
    exact (needsQuotes_eq_false_iff.mp (fair rfl) byte member).2.2

/-- No record starts with a line terminator. -/
theorem head_rowText {dialect : Dialect} (proper : dialect.Proper) {fields : List Spelled}
    (fair : ∀ field ∈ fields, field.Fair dialect) :
    ∀ byte ∈ (rowText dialect fields).head?, isTerminator byte = false := by
  rcases fields with _ | ⟨field, _ | ⟨next, rest⟩⟩
  · simp [rowText]
  · exact head_text proper (fair field (by simp))
  · have first := head_text proper (fair field (by simp))
    intro byte found
    rw [rowText_cons dialect field (by simp)] at found
    cases same : field.text dialect with
    | nil =>
      rw [same] at found
      cases found
      exact proper.delimiter_inner
    | cons head more =>
      rw [same] at found first
      exact first byte found

theorem getLast?_text (proper : dialect.Proper) {field : Spelled} (fair : field.Fair dialect) :
    ∀ byte ∈ (field.text dialect).getLast?, isTerminator byte = false := by
  rcases field with ⟨quoted, content⟩
  intro byte found
  cases quoted with
  | true =>
    have last : (Spelled.text dialect ⟨true, content⟩).getLast? = some dialect.quote := by
      simp [Spelled.text, List.getLast?_cons]
    rw [last] at found
    cases found
    exact proper.quote_inner
  | false =>
    have member : byte ∈ content := List.mem_of_getLast? found
    exact (needsQuotes_eq_false_iff.mp (fair rfl) byte member).2.2

/-- No record ends with a line terminator. -/
theorem getLast?_rowText (proper : dialect.Proper) {fields : List Spelled}
    (fair : ∀ field ∈ fields, field.Fair dialect) :
    ∀ byte ∈ (rowText dialect fields).getLast?, isTerminator byte = false := by
  induction fields with
  | nil => simp [rowText]
  | cons field rest ih =>
    have later := ih fun other member => fair other (by simp [member])
    by_cases more : rest = []
    · subst more
      exact getLast?_text proper (fair field (by simp))
    · intro byte found
      rw [rowText_cons dialect field more, List.getLast?_append, List.getLast?_cons] at found
      cases last : (rowText dialect rest).getLast? with
      | none =>
        rw [last] at found
        cases found
        exact proper.delimiter_inner
      | some other =>
        rw [last] at found later
        cases found
        exact later other rfl

/-- Line terminators in front of a record do not matter. -/
theorem scanRecord_append (dialect : Dialect) {lead : Bytes}
    (blank : ∀ byte ∈ lead, isTerminator byte = true) (text : Bytes) :
    scanRecord dialect (lead ++ text) = scanRecord dialect text := by
  rw [scanRecord, List.dropWhile_append_of_pos blank, ← scanRecord]

/-- A record is scanned as it is spelled. -/
theorem scanRecord_rowText {dialect : Dialect} (proper : dialect.Proper) {tail : Bytes}
    {fields : List Spelled} (fair : ∀ field ∈ fields, field.Fair dialect)
    (written : rowText dialect fields ≠ []) (closes : Closes tail) :
    scanRecord dialect (rowText dialect fields ++ tail) =
      some ⟨fields.map Spelled.content, (stopAt dialect tail).1, (stopAt dialect tail).2⟩ := by
  have nonempty : fields ≠ [] := by
    rintro rfl
    exact written rfl
  have scanned := scanFields_rowText proper nonempty fair closes
  have first := head_rowText proper fair
  cases same : rowText dialect fields with
  | nil => exact absurd same written
  | cons byte rest =>
    rw [same] at first scanned
    simpa [scanRecord, List.dropWhile, first byte rfl] using scanned

theorem scanField_suffix (dialect : Dialect) (place : Place) (input : Bytes) :
    (scanField dialect place input).rest <:+ input := by
  fun_induction scanField dialect place input with
  | case1 => exact List.suffix_rfl
  | case5 | case6 | case8 | case9 | case12 | case13 => exact List.suffix_cons _ _
  | case2 _ ih | case3 _ _ _ ih | case4 _ ih | case7 _ _ _ _ _ ih | case10 _ _ _ _ ih
    | case11 _ ih | case14 _ _ _ _ _ ih => exact ih.trans (List.suffix_cons _ _)

theorem scanFields_suffix (dialect : Dialect) (input : Bytes) :
    (scanFields dialect input).rest <:+ input := by
  fun_induction scanFields dialect input with
  | case1 input field more others ih =>
    exact ih.trans (scanField_suffix dialect .fieldStart input)
  | case2 input field more => exact scanField_suffix dialect .fieldStart input

/-- Scanning leaves an end of the input. -/
theorem scanRecord_suffix {dialect : Dialect} {input : Bytes} {scanned : Scanned Record}
    (found : scanRecord dialect input = some scanned) : scanned.rest <:+ input := by
  have skipped := List.dropWhile_suffix (l := input) isTerminator
  unfold scanRecord at found
  split at found
  next => cases found
  next byte rest same =>
    cases found
    rw [same] at skipped
    exact (scanFields_suffix dialect (byte :: rest)).trans skipped

theorem scanField_sublist (dialect : Dialect) (place : Place) (input : Bytes) :
    (scanField dialect place input).value.Sublist input := by
  fun_induction scanField dialect place input with
  | case1 | case5 | case6 | case8 | case9 | case12 | case13 => exact List.nil_sublist _
  | case2 _ ih | case4 _ ih => exact ih.cons _
  | case3 _ _ _ ih | case7 _ _ _ _ _ ih | case10 _ _ _ _ ih | case11 _ ih
    | case14 _ _ _ _ _ ih => exact ih.cons_cons _

theorem scanFields_sublist (dialect : Dialect) (input : Bytes) :
    ∀ field ∈ (scanFields dialect input).value, field.Sublist input := by
  fun_induction scanFields dialect input with
  | case1 input field more others ih =>
    refine List.forall_mem_cons.mpr ⟨scanField_sublist dialect .fieldStart input, ?_⟩
    intro other member
    exact (ih other member).trans (scanField_suffix dialect .fieldStart input).sublist
  | case2 input field more =>
    exact List.forall_mem_singleton.mpr (scanField_sublist dialect .fieldStart input)

/-- Scanning makes up no bytes: a field is what the input holds, some marks left out. -/
theorem scanRecord_sublist {dialect : Dialect} {input : Bytes} {scanned : Scanned Record}
    (found : scanRecord dialect input = some scanned) :
    ∀ field ∈ scanned.value, field.Sublist input := by
  have skipped := List.dropWhile_suffix (l := input) isTerminator
  unfold scanRecord at found
  split at found
  next => cases found
  next byte rest same =>
    cases found
    rw [same] at skipped
    intro field member
    exact (scanFields_sublist dialect (byte :: rest) field member).trans skipped.sublist

/-- How a record is written: quotes where they are needed, and around an only field that is
empty. -/
def spelling (dialect : Dialect) (record : Record) : List Spelled :=
  if record = [[]] then [⟨true, []⟩]
  else record.map fun field => ⟨needsQuotes dialect field, field⟩

theorem fair_spelling (dialect : Dialect) (record : Record) :
    ∀ field ∈ spelling dialect record, field.Fair dialect := by
  intro field member
  unfold spelling at member
  split at member
  · rw [List.mem_singleton.mp member]
    intro bare
    cases bare
  · obtain ⟨content, _, rfl⟩ := List.mem_map.mp member
    exact id

theorem content_spelling (dialect : Dialect) (record : Record) :
    (spelling dialect record).map Spelled.content = record := by
  unfold spelling
  split
  next same => simp [same]
  next => simp [Function.comp_def]

theorem flatten_fieldPieces (dialect : Dialect) (field : Bytes) :
    (fieldPieces dialect field).flatten =
      (Spelled.mk (needsQuotes dialect field) field).text dialect := by
  have single (content : Bytes) : (content.map fun byte => [byte]).flatten = content := by
    rw [← List.flatMap_def, List.flatMap_singleton']
  unfold fieldPieces Spelled.text
  split
  · simp [quotedPieces, doubled, List.flatMap_def]
  · exact single field

theorem flatten_fieldsPieces (dialect : Dialect) (record : Record) :
    (fieldsPieces dialect record).flatten =
      rowText dialect (record.map fun field => ⟨needsQuotes dialect field, field⟩) := by
  fun_induction fieldsPieces dialect record with
  | case1 => rfl
  | case2 field => exact flatten_fieldPieces dialect field
  | case3 field rest more ih =>
    cases rest with
    | nil => exact absurd rfl more
    | cons next others =>
      simp only [List.flatten_append, List.flatten_cons, ih, flatten_fieldPieces]
      rfl

theorem fieldPieces_eq_nil_iff {dialect : Dialect} {field : Bytes} :
    fieldPieces dialect field = [] ↔ field = [] := by
  unfold fieldPieces
  split
  next quoted =>
    have nonempty : field ≠ [] := by
      rintro rfl
      simp [needsQuotes] at quoted
    simp [quotedPieces, nonempty]
  next => simp

theorem fieldsPieces_ne_nil {dialect : Dialect} {record : Record} (nonempty : record ≠ [])
    (written : record ≠ [[]]) : fieldsPieces dialect record ≠ [] := by
  rcases record with _ | ⟨field, _ | ⟨next, rest⟩⟩
  · exact absurd rfl nonempty
  · intro nothing
    rw [fieldsPieces, fieldPieces_eq_nil_iff] at nothing
    exact written (by rw [nothing])
  · simp [fieldsPieces]

/-- A written record is its spelling and a line feed. -/
theorem encode_eq (dialect : Dialect) {record : Record} (nonempty : record ≠ []) :
    encode dialect record = rowText dialect (spelling dialect record) ++ [lineFeed] := by
  unfold encode pieces
  by_cases lone : record = [[]]
  · simp [lone, fieldsPieces, fieldPieces, needsQuotes, spelling, rowText, Spelled.text, doubled]
  · have written : fieldsPieces dialect record ≠ [] := fieldsPieces_ne_nil nonempty lone
    cases same : fieldsPieces dialect record with
    | nil => exact absurd same written
    | cons piece more =>
      rw [spelling, if_neg lone, ← flatten_fieldsPieces, same]
      simp

theorem rowText_spelling_ne_nil (dialect : Dialect) {record : Record} (nonempty : record ≠ []) :
    rowText dialect (spelling dialect record) ≠ [] := by
  rcases record with _ | ⟨field, _ | ⟨next, rest⟩⟩
  · exact absurd rfl nonempty
  · by_cases lone : field = []
    · simp [spelling, lone, rowText, Spelled.text]
    · have differs : ([field] : Record) ≠ [[]] := by simpa using lone
      rw [spelling, if_neg differs]
      cases quoted : needsQuotes dialect field <;> simp [rowText, Spelled.text, quoted, lone]
  · simp [spelling, rowText]

/-- What was written reads back, whatever follows it. -/
theorem scanRecord_encode {dialect : Dialect} (proper : dialect.Proper) {record : Record}
    (nonempty : record ≠ []) (rest : Bytes) :
    scanRecord dialect (encode dialect record ++ rest) = some ⟨record, .terminator, rest⟩ := by
  have closes : Closes (lineFeed :: rest) := by
    intro byte found
    cases found
    rfl
  have apart : lineFeed ≠ dialect.delimiter := proper.ne_delimiter rfl
  have scanned := scanRecord_rowText proper (fair_spelling dialect record)
    (rowText_spelling_ne_nil dialect nonempty) closes
  rw [content_spelling] at scanned
  calc scanRecord dialect (encode dialect record ++ rest)
      = scanRecord dialect (rowText dialect (spelling dialect record) ++ lineFeed :: rest) := by
        rw [encode_eq dialect nonempty, List.append_assoc]
        rfl
    _ = some ⟨record, (stopAt dialect (lineFeed :: rest)).1,
          (stopAt dialect (lineFeed :: rest)).2⟩ := scanned
    _ = some ⟨record, .terminator, rest⟩ := by rw [stopAt, if_neg apart]

end Record

end ResumableCsv
