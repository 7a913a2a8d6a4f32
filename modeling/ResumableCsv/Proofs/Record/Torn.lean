import ResumableCsv.Proofs.Record.Quotes

/-!
Records that are cut short. Scanning what is left of a written record gives whole fields and then
the beginning of one, wherever the cut falls: the end of the input closes that field, also inside
its quotes. When a line feed is put there it closes the field as well, but not inside quotes.
-/

namespace ResumableCsv.Record

/-- Whole fields of a record, and the beginning of the next one. -/
inductive Shortened (record : Record) : Record → Prop
  | intro {before after : Record} {field value : Bytes} (split : record = before ++ field :: after)
      (leading : value <+: field) : Shortened record (before ++ [value])

theorem Shortened.cons {record kept : Record} (shortened : Shortened record kept) (field : Bytes) :
    Shortened (field :: record) (field :: kept) := by
  obtain ⟨split, leading⟩ := shortened
  rename_i before after cut value
  exact show Shortened (field :: record) ((field :: before) ++ [value]) from
    .intro (congrArg (field :: ·) split) leading

/-- When no field is missing, only the last one is shorter. -/
theorem Shortened.eq_of_length {record kept : Record} (shortened : Shortened record kept)
    (whole : kept.length = record.length) :
    ∃ before last value, record = before ++ [last] ∧ kept = before ++ [value] ∧ value <+: last := by
  obtain ⟨rfl, leading⟩ := shortened
  rename_i before after field value
  have nothing : after = [] := by
    simp only [List.length_append, List.length_cons, List.length_nil] at whole
    exact List.length_eq_zero_iff.mp (by omega)
  subst nothing
  exact ⟨before, field, value, rfl, rfl, leading⟩

variable {dialect : Dialect}

/-- Inside quotes the end of the input ends the field. -/
theorem scanField_quoted_torn {content torn : Bytes}
    (leading : torn <+: doubled dialect.quote content ++ [dialect.quote]) :
    ∃ value, scanField dialect .quoted torn = ⟨value, .inputEnd, []⟩ ∧ value <+: content := by
  induction content generalizing torn with
  | nil =>
    refine ⟨[], ?_, List.nil_prefix⟩
    rcases List.prefix_cons_iff.mp leading with rfl | ⟨rest, rfl, nothing⟩
    · rfl
    · rw [List.prefix_nil.mp nothing]
      simp [scanField]
  | cons byte content ih =>
    have inner {rest : Bytes}
        (leading : rest <+: doubled dialect.quote content ++ [dialect.quote]) :
        ∃ value, (scanField dialect .quoted rest).push byte = ⟨value, .inputEnd, []⟩ ∧
          value <+: byte :: content := by
      obtain ⟨value, scanned, prior⟩ := ih leading
      exact ⟨byte :: value, by rw [scanned]; rfl, List.cons_prefix_cons.mpr ⟨rfl, prior⟩⟩
    by_cases same : byte = dialect.quote
    · -- Of the two quotes that are written for one, the second may be missing.
      subst same
      simp only [doubled, List.flatMap_cons, if_true, List.cons_append, List.nil_append] at leading
      rcases List.prefix_cons_iff.mp leading with rfl | ⟨rest, rfl, more⟩
      · exact ⟨[], rfl, List.nil_prefix⟩
      · rcases List.prefix_cons_iff.mp more with rfl | ⟨behind, rfl, inside⟩
        · exact ⟨[], by simp [scanField], List.nil_prefix⟩
        · simpa [scanField] using inner inside
    · simp only [doubled, List.flatMap_cons, if_neg same, List.cons_append,
        List.nil_append] at leading
      rcases List.prefix_cons_iff.mp leading with rfl | ⟨rest, rfl, more⟩
      · exact ⟨[], rfl, List.nil_prefix⟩
      · simpa [scanField, same] using inner more

theorem stops_nil (dialect : Dialect) : Stops dialect [] := by
  simp [Stops]

theorem scanField_torn (proper : dialect.Proper) {field : Spelled} (fair : field.Fair dialect)
    {torn : Bytes} (leading : torn <+: field.text dialect) :
    ∃ value, scanField dialect .fieldStart torn = ⟨value, .inputEnd, []⟩ ∧
      value <+: field.content := by
  rcases field with ⟨quoted, content⟩
  cases quoted with
  | true =>
    rcases List.prefix_cons_iff.mp leading with rfl | ⟨rest, rfl, more⟩
    · exact ⟨[], rfl, List.nil_prefix⟩
    · simpa [scanField] using scanField_quoted_torn more
  | false =>
    have bare : torn <+: content := leading
    have plain : needsQuotes dialect torn = false := needsQuotes_eq_false_iff.mpr fun byte member =>
      needsQuotes_eq_false_iff.mp (fair rfl) byte (bare.subset member)
    have fairTorn : Spelled.Fair dialect ⟨false, torn⟩ := fun _ => plain
    have scanned := scanField_text proper fairTorn (stops_nil dialect)
    refine ⟨torn, ?_, bare⟩
    simpa [Spelled.text, stopAt] using scanned

theorem scanFields_torn (proper : dialect.Proper) {fields : List Spelled} (nonempty : fields ≠ [])
    (fair : ∀ field ∈ fields, field.Fair dialect) {torn : Bytes}
    (leading : torn <+: rowText dialect fields) :
    ∃ kept, scanFields dialect torn = ⟨kept, .inputEnd, []⟩ ∧
      Shortened (fields.map Spelled.content) kept := by
  induction fields generalizing torn with
  | nil => exact absurd rfl nonempty
  | cons field rest ih =>
    have first := fair field (by simp)
    have within {torn : Bytes} (leading : torn <+: field.text dialect) :
        ∃ kept, scanFields dialect torn = ⟨kept, .inputEnd, []⟩ ∧
          Shortened ((field :: rest).map Spelled.content) kept := by
      obtain ⟨value, scanned, prior⟩ := scanField_torn proper first leading
      refine ⟨[value], ?_, show Shortened _ ([] ++ [value]) from .intro rfl prior⟩
      rw [scanFields]
      simp [scanned]
    by_cases more : rest = []
    · subst more
      exact within leading
    · rw [rowText_cons dialect field more] at leading
      rcases List.prefix_or_prefix_of_prefix leading (List.prefix_append _ _) with short | long
      · exact within short
      · obtain ⟨behind, rfl⟩ := long
        rcases List.prefix_cons_iff.mp ((List.prefix_append_right_inj _).mp leading) with
          rfl | ⟨others, rfl, later⟩
        · exact within (by simp)
        · obtain ⟨kept, scanned, shortened⟩ :=
            ih more (fun other member => fair other (by simp [member])) later
          refine ⟨field.content :: kept, ?_, shortened.cons field.content⟩
          rw [scanFields, scanField_text proper first (stops_delimiter dialect others)]
          simp [stopAt, scanned]

/-- What is left of a written record is scanned as whole fields and the beginning of one. -/
theorem scanRecord_torn (proper : dialect.Proper) {record : Record} (nonempty : record ≠ [])
    {torn : Bytes} (some_byte : torn ≠ [])
    (leading : torn <+: rowText dialect (spelling dialect record)) :
    ∃ kept, scanRecord dialect torn = some ⟨kept, .inputEnd, []⟩ ∧ Shortened record kept := by
  have fair := fair_spelling dialect record
  have fields : spelling dialect record ≠ [] := by
    intro nothing
    exact rowText_spelling_ne_nil dialect nonempty (by rw [nothing]; rfl)
  obtain ⟨kept, scanned, shortened⟩ := scanFields_torn proper fields fair leading
  rw [content_spelling] at shortened
  refine ⟨kept, ?_, shortened⟩
  obtain ⟨byte, rest, rfl⟩ := List.exists_cons_of_ne_nil some_byte
  have first : isTerminator byte = false := by
    obtain ⟨behind, same⟩ := leading
    exact head_rowText proper fair byte (by rw [← same]; rfl)
  simpa [scanRecord, List.dropWhile, first] using scanned

/-- A record without its line feed is whole. -/
theorem scanRecord_unended (proper : dialect.Proper) {record : Record} (nonempty : record ≠ []) :
    scanRecord dialect (rowText dialect (spelling dialect record)) =
      some ⟨record, .inputEnd, []⟩ := by
  have scanned := scanRecord_rowText proper (fair_spelling dialect record)
    (rowText_spelling_ne_nil dialect nonempty) (show Closes [] by simp [Closes])
  rw [content_spelling, List.append_nil] at scanned
  exact scanned

/-- Where a record was cut outside of its quotes, ending its line is as good as ending the input. -/
theorem scanRecord_mended (proper : dialect.Proper) {record kept : Record} {torn : Bytes}
    (some_byte : torn ≠ []) (leading : torn <+: rowText dialect (spelling dialect record))
    (balanced : Balanced dialect torn)
    (scanned : scanRecord dialect torn = some ⟨kept, .inputEnd, []⟩) :
    torn.getLast? ≠ some lineFeed ∧ ∀ rest,
      scanRecord dialect (torn ++ lineFeed :: rest) = some ⟨kept, .terminator, rest⟩ := by
  obtain ⟨fields, _, fair, rfl⟩ :=
    exists_rowText_of_balanced proper (fair_spelling dialect record) leading balanced
  have alone := scanRecord_rowText proper fair some_byte (show Closes [] by simp [Closes])
  rw [List.append_nil, scanned] at alone
  obtain rfl : kept = fields.map Spelled.content := congrArg Scanned.value (Option.some.inj alone)
  refine ⟨?_, ?_⟩
  · intro ends
    have inner := getLast?_rowText proper fair lineFeed ends
    cases inner
  · intro rest
    have apart : lineFeed ≠ dialect.delimiter := proper.ne_delimiter rfl
    have closes : Closes (lineFeed :: rest) := by
      intro byte found
      cases found
      rfl
    have ended := scanRecord_rowText proper fair some_byte closes
    rwa [stopAt, if_neg apart] at ended

/-- A record without its line feed was cut outside of its quotes. -/
theorem balanced_rowText (proper : dialect.Proper) (record : Record) :
    Balanced dialect (rowText dialect (spelling dialect record)) :=
  (count_rowText proper (fair_spelling dialect record)).1

end ResumableCsv.Record
