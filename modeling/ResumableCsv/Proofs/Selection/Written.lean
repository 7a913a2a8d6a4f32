import ResumableCsv.Proofs.Selection.Grammar
import ResumableCsv.Proofs.Text.Numeral
import ResumableCsv.Selection.Printer

/-!
Selections written down: the text of a selection is an expression of the grammar that says just that
selection, whatever characters its names have.
-/

namespace ResumableCsv

open Text

/-- A column that can be written: by name, or by a position that can be counted from one. -/
def ColumnKey.Expressible : ColumnKey → Prop
  | .named _ => True
  | .nth _ _ => False
  | .position index => index < maxCounter

def Selector.Expressible : Selector → Prop
  | .single key => key.Expressible
  | .indexed _ occurrence => occurrence ≤ maxCounter
  | .range first last => first.Expressible ∧ ∀ key ∈ last, key.Expressible

namespace Selection

open Grammar

theorem units_escaped (name : List Char) : Units closing (escaped name) name := by
  induction name with
  | nil => exact .nil
  | cons c name ih =>
    rw [escaped, List.flatMap_cons, ← escaped]
    by_cases special : c = '"' ∨ c = '\\'
    · rw [if_pos special]
      exact .escaped c ih
    · rw [if_neg special]
      exact .plain (by simpa [closing] using special) ih

theorem column_quotedName (name : String) : Column (quotedName name) ⟨name.toList, true⟩ :=
  .quoted (units_escaped name.toList)

theorem isBlank_of_isAsciiDigit {c : Char} (digit : isAsciiDigit c = true) : isBlank c = false := by
  simp only [isAsciiDigit, Bool.and_eq_true, decide_eq_true_eq] at digit
  simp only [isBlank, Bool.or_eq_false_iff, Bool.and_eq_false_iff, decide_eq_false_iff_not,
    beq_eq_false_iff_ne]
  omega

theorem ne_of_isAsciiDigit {c mark : Char} (digit : isAsciiDigit c = true)
    (other : isAsciiDigit mark = false) : c ≠ mark := by
  rintro rfl
  rw [digit] at other
  cases other

theorem numeral_decimal {n : Nat} (bound : n ≤ maxCounter) : Numeral (decimal n) n :=
  ⟨Nat.toDigits_ne_nil, all_isAsciiDigit_decimal n, digitsValue_decimal n, bound⟩

theorem column_decimal (n : Nat) : Column (decimal n) ⟨decimal n, false⟩ := by
  have digit {c : Char} (member : c ∈ decimal n) : isAsciiDigit c = true :=
    List.all_eq_true.mp (all_isAsciiDigit_decimal n) c member
  have whole : trim (decimal n) = decimal n :=
    trim_of_solid fun c member => isBlank_of_isAsciiDigit (digit member)
  have units : Units separators (decimal n) (decimal n) := by
    refine .of_free fun c member reserved => ?_
    rcases mem_separators.mp reserved with (rfl | rfl | rfl) | rfl <;>
      exact absurd (digit member) (by decide)
  have written := Column.bare units
    (fun c found => ne_of_isAsciiDigit (digit (List.mem_of_mem_head? found)) (by decide))
    (fun c found => isBlank_of_isAsciiDigit (digit (List.mem_of_mem_head? found)))
    (by rw [whole]; exact Nat.toDigits_ne_nil)
  rwa [whole] at written

theorem Grammar.Column.padded {spelled : List Char} {column : Endpoint}
    (written : Column spelled column) : Padded spelled column := by
  have padded := Padded.intro Blank.nil written Blank.nil
  rwa [List.append_nil, List.nil_append] at padded

/-- The text of a column is a column that means it. -/
theorem exists_column {key : ColumnKey} (expressible : key.Expressible) :
    ∃ column, Column key.expression column ∧ Means column key := by
  cases key with
  | named name =>
    refine ⟨⟨name.toList, true⟩, column_quotedName name, ?_⟩
    have meant := Means.quoted name.toList
    rwa [String.ofList_toList] at meant
  | nth => exact absurd expressible id
  | position index =>
    exact ⟨_, column_decimal (index + 1), .position (numeral_decimal expressible)⟩

theorem term_expression {selector : Selector} (expressible : selector.Expressible) :
    Term selector.expression selector := by
  cases selector with
  | single key =>
    obtain ⟨column, written, meant⟩ := exists_column expressible
    exact .single written.padded meant
  | indexed name occurrence =>
    have written := Term.indexed (column_quotedName name).padded (numeral_decimal expressible)
      Blank.nil
    rwa [String.ofList_toList] at written
  | range first last =>
    obtain ⟨column, written, meant⟩ := exists_column expressible.1
    cases last with
    | none => exact .openRange written.padded meant .nil
    | some final =>
      obtain ⟨other, ended, reached⟩ := exists_column (expressible.2 final rfl)
      exact .closedRange written.padded meant ended.padded reached

theorem terms_join {selectors : List Selector} (nonempty : selectors ≠ [])
    (expressible : ∀ selector ∈ selectors, selector.Expressible) :
    Terms (join [','] (selectors.map Selector.expression)) selectors := by
  induction selectors with
  | nil => exact absurd rfl nonempty
  | cons selector selectors ih =>
    have first := term_expression (expressible selector (by simp))
    cases selectors with
    | nil => exact .one first
    | cons next others =>
      have later := ih (by simp) fun other member => expressible other (by simp [member])
      have whole := Terms.more first later
      simpa [join] using whole

/-- A column in a text is no exclamation mark, and no blank stands in front of it. -/
theorem head_expression {key : ColumnKey} (expressible : key.Expressible) (rest : List Char) :
    ∃ c more, key.expression ++ rest = c :: more ∧ isBlank c = false ∧ c ≠ '!' := by
  cases key with
  | named name => exact ⟨'"', _, rfl, by decide, by decide⟩
  | nth => exact absurd expressible id
  | position index =>
    cases digits : decimal (index + 1) with
    | nil => exact absurd digits Nat.toDigits_ne_nil
    | cons c more =>
      have digit : isAsciiDigit c = true :=
        List.all_eq_true.mp (all_isAsciiDigit_decimal (index + 1)) c (by simp [digits])
      exact ⟨c, more ++ rest, by rw [ColumnKey.expression, digits]; rfl,
        isBlank_of_isAsciiDigit digit, ne_of_isAsciiDigit digit (by decide)⟩

/-- The text of a term starts with that of a column. -/
theorem exists_first_column {selector : Selector} (expressible : selector.Expressible) :
    ∃ (key : ColumnKey) (rest : List Char),
      key.Expressible ∧ selector.expression = key.expression ++ rest := by
  cases selector with
  | single key => exact ⟨key, [], expressible, (List.append_nil _).symm⟩
  | indexed name occurrence => exact ⟨.named name, bracketed occurrence, trivial, rfl⟩
  | range first last => exact ⟨first, _, expressible.1, rfl⟩

theorem exists_join_cons (piece : List Char) (pieces : List (List Char)) :
    ∃ rest, join [','] (piece :: pieces) = piece ++ rest := by
  cases pieces with
  | nil => exact ⟨[], (List.append_nil _).symm⟩
  | cons next others => exact ⟨_, List.append_assoc _ _ _⟩

theorem unmarked_join {selectors : List Selector} (nonempty : selectors ≠ [])
    (expressible : ∀ selector ∈ selectors, selector.Expressible) :
    (trimStart (join [','] (selectors.map Selector.expression))).head? ≠ some '!' := by
  cases selectors with
  | nil => exact absurd rfl nonempty
  | cons selector others =>
    obtain ⟨key, behind, written, split⟩ := exists_first_column (expressible selector (by simp))
    obtain ⟨rest, whole⟩ :=
      exists_join_cons selector.expression (others.map Selector.expression)
    obtain ⟨c, more, first, solid, other⟩ := head_expression written (behind ++ rest)
    rw [List.map_cons, whole, split, List.append_assoc, first, trimStart_of_head]
    · simpa using other
    · intro head found
      cases found
      exact solid

/-- A selection is read back from its own text. -/
theorem parse_expression {selection : Selection} (nonempty : selection.selectors ≠ [])
    (expressible : ∀ selector ∈ selection.selectors, selector.Expressible) :
    parse selection.expression = .ok selection := by
  obtain ⟨selectors, inverted⟩ := selection
  have written := terms_join nonempty expressible
  rw [parse_eq_ok_iff, Selection.expression, String.toList_ofList]
  cases inverted with
  | true => exact .inverted Blank.nil written
  | false => exact .plain (unmarked_join nonempty expressible) written

/-- Names with every mark of the grammar in them, with digits only, and without a character. -/
def markedNames : Selection :=
  ⟨[.single (.named " a,\"b\\ "), .single (.named "12"), .single (.position 0), .indexed "" 3,
    .range (.position 11) (some (.named "!-[")), .range (.named "]") none], true⟩

theorem parse_expression_markedNames :
    markedNames.expression =
        "!\" a,\\\"b\\\\ \",\"12\",1,\"\"[3],12-\"!-[\",\"]\"-" ∧
      parse markedNames.expression = .ok markedNames := by
  refine ⟨by decide, parse_expression (by decide) ?_⟩
  simp [markedNames, Selector.Expressible, ColumnKey.Expressible, maxCounter]

end Selection

end ResumableCsv
