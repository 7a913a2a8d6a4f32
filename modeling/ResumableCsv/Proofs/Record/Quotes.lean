import ResumableCsv.Proofs.Record.Spelling

/-!
The number of quotes in the text of a record: it is even, and odd behind a line feed, since that
stands between quotes. What is left of such a text when it is cut is the text of a shorter record
wherever the cut leaves an even number of quotes in front of it.
-/

namespace ResumableCsv.Record

variable {dialect : Dialect}

/-- Every quote that was opened is closed. -/
def Balanced (dialect : Dialect) (text : Bytes) : Prop := text.count dialect.quote % 2 = 0

instance (text : Bytes) : Decidable (Balanced dialect text) := inferInstanceAs (Decidable (_ = _))

theorem count_doubled (quote : UInt8) (content : Bytes) :
    (doubled quote content).count quote % 2 = 0 := by
  induction content with
  | nil => rfl
  | cons byte rest ih =>
    rw [doubled, List.flatMap_cons, ← doubled, List.count_append]
    by_cases same : byte = quote
    · rw [if_pos same, same, List.count_cons_self, List.count_cons_self, List.count_nil]
      omega
    · rw [if_neg same, List.count_singleton]
      simp only [beq_iff_eq, same, if_false]
      omega

/-- Behind any byte of a quoted content that is no quote, the quotes are even in number. -/
theorem count_behind_doubled {quote byte : UInt8} (apart : byte ≠ quote)
    {content before rest : Bytes}
    (split : doubled quote content = before ++ byte :: rest) : rest.count quote % 2 = 0 := by
  induction content generalizing before with
  | nil =>
    rw [doubled, List.flatMap_nil] at split
    simp at split
  | cons first content ih =>
    rw [doubled, List.flatMap_cons, ← doubled] at split
    by_cases same : first = quote
    · rw [if_pos same, same] at split
      rcases before with _ | ⟨one, _ | ⟨two, before⟩⟩
      · exact absurd (List.cons.inj split).1.symm apart
      · exact absurd (List.cons.inj (List.cons.inj split).2).1.symm apart
      · exact ih (List.cons.inj (List.cons.inj split).2).2
    · rw [if_neg same] at split
      rcases before with _ | ⟨one, before⟩
      · rw [← (List.cons.inj split).2]
        exact count_doubled quote content
      · exact ih (List.cons.inj split).2

/-- In the text of a field quotes are even in number, and odd behind a line feed. -/
theorem count_text (proper : dialect.Proper) {field : Spelled} (fair : field.Fair dialect) :
    (field.text dialect).count dialect.quote % 2 = 0 ∧
      ∀ before rest, field.text dialect = before ++ lineFeed :: rest →
        rest.count dialect.quote % 2 = 1 := by
  obtain ⟨quoted, content⟩ := field
  cases quoted with
  | false =>
    have plain := needsQuotes_eq_false_iff.mp (fair rfl)
    have unquoted : content.count dialect.quote = 0 := by
      rw [List.count_eq_zero]
      intro member
      exact (plain _ member).2.1 rfl
    refine ⟨by simp [Spelled.text, unquoted], ?_⟩
    intro before rest split
    have member : lineFeed ∈ content := by
      rw [show content = before ++ lineFeed :: rest from split]
      simp
    exact absurd (plain _ member).2.2 (by decide)
  | true =>
    have inner := count_doubled dialect.quote content
    refine ⟨?_, ?_⟩
    · simp only [Spelled.text, if_true, List.count_cons_self, List.count_append, List.count_nil]
      omega
    · intro before rest split
      simp only [Spelled.text, if_true] at split
      rcases before with _ | ⟨first, before⟩
      · exact absurd (List.cons.inj split).1.symm (proper.ne_quote rfl)
      · have tail := (List.cons.inj split).2
        rcases List.append_eq_append_iff.mp tail with ⟨more, _, behind⟩ | ⟨more, front, behind⟩
        · have member : lineFeed ∈ [dialect.quote] := by rw [behind]; simp
          exact absurd (List.mem_singleton.mp member) (proper.ne_quote rfl)
        · rcases more with _ | ⟨byte, more⟩
          · exact absurd (List.cons.inj behind).1 (proper.ne_quote rfl)
          · obtain ⟨rfl, last⟩ := List.cons.inj behind
            have closing : rest = more ++ [dialect.quote] := last
            have even := count_behind_doubled (proper.ne_quote rfl) front
            rw [closing, List.count_append, List.count_cons_self, List.count_nil]
            omega

theorem count_rowText (proper : dialect.Proper) {fields : List Spelled}
    (fair : ∀ field ∈ fields, field.Fair dialect) :
    (rowText dialect fields).count dialect.quote % 2 = 0 ∧
      ∀ before rest, rowText dialect fields = before ++ lineFeed :: rest →
        rest.count dialect.quote % 2 = 1 := by
  induction fields with
  | nil => exact ⟨rfl, by simp [rowText]⟩
  | cons field fields ih =>
    obtain ⟨even, odd⟩ := count_text proper (fair field (by simp))
    obtain ⟨later, behind⟩ := ih fun other member => fair other (by simp [member])
    by_cases lone : fields = []
    · subst lone
      exact ⟨even, odd⟩
    · rw [rowText_cons dialect field lone]
      have mark : (dialect.delimiter :: rowText dialect fields).count dialect.quote =
          (rowText dialect fields).count dialect.quote :=
        List.count_cons_of_ne proper.distinct
      refine ⟨by rw [List.count_append, mark]; omega, ?_⟩
      intro before rest split
      rcases List.append_eq_append_iff.mp split with ⟨more, _, there⟩ | ⟨more, front, there⟩
      · rcases more with _ | ⟨byte, more⟩
        · exact absurd (List.cons.inj there).1.symm (proper.ne_delimiter rfl)
        · exact behind more rest (List.cons.inj there).2
      · rcases more with _ | ⟨byte, more⟩
        · exact absurd (List.cons.inj there).1 (proper.ne_delimiter rfl)
        · obtain ⟨rfl, last⟩ := List.cons.inj there
          have others : rest = more ++ dialect.delimiter :: rowText dialect fields := last
          have here := odd before more front
          rw [others, List.count_append, mark]
          omega

/-- An odd number of quotes of a quoted content and its end was cut behind a quote that closes
it. -/
theorem exists_doubled_of_odd {quote : UInt8} {content torn : Bytes}
    (leading : torn <+: doubled quote content ++ [quote]) (odd : torn.count quote % 2 = 1) :
    ∃ kept, torn = doubled quote kept ++ [quote] := by
  have some_byte : torn ≠ [] := by
    rintro rfl
    simp at odd
  induction content generalizing torn with
  | nil =>
    rcases List.prefix_cons_iff.mp leading with nothing | ⟨rest, rfl, more⟩
    · exact absurd nothing some_byte
    · rw [List.prefix_nil.mp more]
      exact ⟨[], rfl⟩
  | cons byte content ih =>
    by_cases same : byte = quote
    · subst same
      simp only [doubled, List.flatMap_cons, if_true, List.cons_append, List.nil_append] at leading
      rcases List.prefix_cons_iff.mp leading with nothing | ⟨rest, rfl, more⟩
      · exact absurd nothing some_byte
      · rcases List.prefix_cons_iff.mp more with rfl | ⟨behind, rfl, inside⟩
        · exact ⟨[], rfl⟩
        · rw [List.count_cons_self, List.count_cons_self] at odd
          have filled : behind ≠ [] := by
            rintro rfl
            simp at odd
          obtain ⟨kept, rfl⟩ := ih inside (by omega) filled
          exact ⟨byte :: kept, by simp [doubled]⟩
    · simp only [doubled, List.flatMap_cons, if_neg same, List.cons_append,
        List.nil_append] at leading
      rcases List.prefix_cons_iff.mp leading with nothing | ⟨rest, rfl, more⟩
      · exact absurd nothing some_byte
      · rw [List.count_cons_of_ne same] at odd
        have filled : rest ≠ [] := by
          rintro rfl
          simp at odd
        obtain ⟨kept, rfl⟩ := ih more odd filled
        exact ⟨byte :: kept, by simp [doubled, same]⟩

theorem exists_text_of_balanced {field : Spelled} (fair : field.Fair dialect) {torn : Bytes}
    (leading : torn <+: field.text dialect) (balanced : Balanced dialect torn) :
    ∃ kept : Spelled, kept.Fair dialect ∧ torn = kept.text dialect := by
  obtain ⟨quoted, content⟩ := field
  cases quoted with
  | false =>
    have bare : torn <+: content := leading
    have plain := needsQuotes_eq_false_iff.mp (fair rfl)
    exact ⟨⟨false, torn⟩, fun _ => needsQuotes_eq_false_iff.mpr fun byte member =>
      plain byte (bare.subset member), rfl⟩
  | true =>
    rcases List.prefix_cons_iff.mp leading with rfl | ⟨rest, rfl, more⟩
    · exact ⟨⟨false, []⟩, fun _ => rfl, rfl⟩
    · have odd : rest.count dialect.quote % 2 = 1 := by
        rw [Balanced, List.count_cons_self] at balanced
        omega
      obtain ⟨kept, rfl⟩ := exists_doubled_of_odd more odd
      refine ⟨⟨true, kept⟩, ?_, rfl⟩
      intro bare
      cases bare

/-- A record that is cut outside of its quotes is spelled like a record. -/
theorem exists_rowText_of_balanced (proper : dialect.Proper) {fields : List Spelled}
    (fair : ∀ field ∈ fields, field.Fair dialect) {torn : Bytes}
    (leading : torn <+: rowText dialect fields) (balanced : Balanced dialect torn) :
    ∃ kept : List Spelled, kept ≠ [] ∧ (∀ field ∈ kept, field.Fair dialect) ∧
      torn = rowText dialect kept := by
  induction fields generalizing torn with
  | nil =>
    rw [List.prefix_nil.mp leading]
    exact ⟨[⟨false, []⟩], by simp, List.forall_mem_singleton.mpr fun _ => rfl, rfl⟩
  | cons field rest ih =>
    obtain ⟨first, others⟩ := List.forall_mem_cons.mp fair
    have within {torn : Bytes} (leading : torn <+: field.text dialect)
        (balanced : Balanced dialect torn) : ∃ kept : List Spelled, kept ≠ [] ∧
          (∀ field ∈ kept, field.Fair dialect) ∧ torn = rowText dialect kept := by
      obtain ⟨kept, fairly, same⟩ := exists_text_of_balanced first leading balanced
      exact ⟨[kept], by simp, List.forall_mem_singleton.mpr fairly, same⟩
    by_cases more : rest = []
    · subst more
      exact within leading balanced
    · rw [rowText_cons dialect field more] at leading
      rcases List.prefix_or_prefix_of_prefix leading (List.prefix_append _ _) with short | long
      · exact within short balanced
      · obtain ⟨behind, rfl⟩ := long
        rcases List.prefix_cons_iff.mp ((List.prefix_append_right_inj _).mp leading) with
          rfl | ⟨tail, rfl, later⟩
        · exact within (by simp) balanced
        · have even := (count_text proper first).1
          rw [Balanced, List.count_append, List.count_cons_of_ne proper.distinct] at balanced
          obtain ⟨kept, filled, fairly, rfl⟩ := ih others later (by rw [Balanced]; omega)
          exact ⟨field :: kept, by simp, List.forall_mem_cons.mpr ⟨first, fairly⟩,
            (rowText_cons dialect field filled).symm⟩

end ResumableCsv.Record
