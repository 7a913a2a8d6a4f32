import ResumableCsv.Proofs.Selection.Inversion
import ResumableCsv.Proofs.Selection.Written

/-!
What selections resolve to. Two expressions joined by a comma pick what the first picks and then what
the second picks. Positions pick the same columns, or fail in the same way, with a header row and
without one. A name between quotes picks the column that the name stands for.
-/

namespace ResumableCsv

open Text

namespace Selection

open Grammar

variable {spelled rest : List Char} {length : Nat} {resolve : ColumnKey → Except Error Nat}

/-- A term is read the same way at the end of an expression and in front of a comma. -/
theorem Grammar.Terms.append {first second : List Selector} (written : Terms spelled first)
    (others : Terms rest second) : Terms (spelled ++ ',' :: rest) (first ++ second) := by
  induction written with
  | one written => exact .more written others
  | more written _ ih =>
    rw [List.append_assoc, List.cons_append]
    exact .more written ih

/-- Text behind a comma puts no exclamation mark in front of an expression. -/
theorem unmarked_append (unmarked : (trimStart spelled).head? ≠ some '!') (rest : List Char) :
    (trimStart (spelled ++ ',' :: rest)).head? ≠ some '!' := by
  rw [trimStart, List.dropWhile_append, ← trimStart]
  cases left : trimStart spelled with
  | nil =>
    have first : (',' :: rest).dropWhile isBlank = ',' :: rest := rfl
    simp [first]
  | cons c more =>
    rw [left] at unmarked
    simpa using unmarked

theorem listed_append {first second : List Selector} {indices others : List Nat}
    (found : listed length resolve first = .ok indices)
    (behind : listed length resolve second = .ok others) :
    listed length resolve (first ++ second) = .ok (indices ++ others) := by
  induction first generalizing indices with
  | nil =>
    cases found
    exact behind
  | cons selector first ih =>
    obtain ⟨these, here, found⟩ := Outcome.do_eq_ok_iff.mp found
    obtain ⟨later, there, joined⟩ := Outcome.do_eq_ok_iff.mp found
    cases joined
    rw [List.append_assoc]
    exact Outcome.do_eq_ok_iff.mpr ⟨these, here, Outcome.do_eq_ok_iff.mpr ⟨_, ih there, rfl⟩⟩

end Selection

namespace Headers

open Selection Grammar

/-- Expressions without an exclamation mark, joined by a comma, pick the columns of the first and
then those of the second. -/
theorem select_joined (headers : Headers) {first second : String} {indices others : List Nat}
    (unmarked : (trimStart first.toList).head? ≠ some '!')
    (unmarked' : (trimStart second.toList).head? ≠ some '!')
    (found : headers.select first = .ok indices) (behind : headers.select second = .ok others) :
    headers.select (first ++ "," ++ second) = .ok (indices ++ others) := by
  obtain ⟨selectors, written, listed⟩ := (select_unmarked_iff unmarked).mp found
  obtain ⟨selectors', written', listed'⟩ := (select_unmarked_iff unmarked').mp behind
  have spelled : (first ++ "," ++ second).toList = first.toList ++ ',' :: second.toList := by
    simp [String.toList_append]
  apply (select_unmarked_iff (by rw [spelled]; exact unmarked_append unmarked _)).mpr
  rw [spelled]
  exact ⟨selectors ++ selectors', written.append written', listed_append listed listed'⟩

/-- An open range with blanks behind it in front of a quoted name with a comma in it. -/
theorem select_joined_sample :
    let headers := Headers.ofNames ["a", "b,!", "a", "c"]
    (trimStart " a[1], 3- ".toList).head? ≠ some '!' ∧
      (trimStart "\"b,!\" ".toList).head? ≠ some '!' ∧
      headers.select " a[1], 3- " = .ok [2, 2, 3] ∧ headers.select "\"b,!\" " = .ok [1] ∧
      headers.select (" a[1], 3- " ++ "," ++ "\"b,!\" ") = .ok [2, 2, 3, 1] := by
  intro headers
  have unmarked : (trimStart " a[1], 3- ".toList).head? ≠ some '!' := by decide
  have unmarked' : (trimStart "\"b,!\" ".toList).head? ≠ some '!' := by decide
  have parsed : parse " a[1], 3- " = .ok ⟨[.indexed "a" 1, .range (.position 2) none], false⟩ := by
    decide +kernel
  have parsed' : parse "\"b,!\" " = .ok ⟨[.single (.named "b,!")], false⟩ := by decide +kernel
  have found : headers.select " a[1], 3- " = .ok [2, 2, 3] := by
    rw [select, parsed]
    decide
  have behind : headers.select "\"b,!\" " = .ok [1] := by
    rw [select, parsed']
    decide
  exact ⟨unmarked, unmarked', found, behind, select_joined headers unmarked unmarked' found behind⟩

end Headers

namespace Selection

variable {length : Nat} {resolve other : ColumnKey → Except Error Nat}

/-- Selectors by position only ask for positions. -/
theorem indices_of_positional (agree : ∀ index, resolve (.position index) = other (.position index))
    {selector : Selector} (positional : selector.isPositional = true) :
    selector.indices length resolve = selector.indices length other := by
  have same {key : ColumnKey} (positional : key.isPositional = true) : resolve key = other key := by
    cases key with
    | position index => exact agree index
    | named | nth => cases positional
  cases selector with
  | single key => rw [Selector.indices, Selector.indices, same positional]
  | indexed => cases positional
  | range first last =>
    rw [Selector.isPositional, Bool.and_eq_true] at positional
    cases last with
    | none => simp only [Selector.indices, same positional.1]
    | some last => simp only [Selector.indices, same positional.1, same positional.2]

theorem listed_of_positional (agree : ∀ index, resolve (.position index) = other (.position index))
    {selectors : List Selector} (positional : selectors.all Selector.isPositional = true) :
    listed length resolve selectors = listed length other selectors := by
  induction selectors with
  | nil => rfl
  | cons selector selectors ih =>
    rw [List.all_cons, Bool.and_eq_true] at positional
    rw [listed, listed, indices_of_positional agree positional.1, ih positional.2]

/-- Positions pick the same columns, or fail in the same way, with a header row and without one; an
expression with a name in it needs a header row. -/
theorem selectPositions_of_parsed (headers : Headers) {text : String} {selection : Selection}
    (parsed : parse text = .ok selection) :
    (selection.isPositional = true →
      selectPositions headers.length text = headers.select text) ∧
    (selection.isPositional = false →
      selectPositions headers.length text = .error (.headersRequired (.selectByName text))) := by
  rw [selectPositions, Headers.select, parsed, Outcome.ok_bind, Outcome.ok_bind]
  constructor
  · intro positional
    have agree (index : Nat) :
        resolvePosition headers.length (.position index) = headers.resolve (.position index) := rfl
    rw [if_pos positional, Selection.indices, Selection.indices,
      listed_of_positional agree positional]
  · intro named
    rw [if_neg (by simp [named])]

/-- A range backward and one that stays open, inverted; a position that is not there; and a name. -/
theorem selectPositions_of_parsed_sample :
    let headers := Headers.ofNames ["a", "b", "c", "d", "e"]
    selectPositions 5 "!4-3,5-" = headers.select "!4-3,5-" ∧ headers.select "!4-3,5-" = .ok [0, 1] ∧
      selectPositions 5 "2-,6" = headers.select "2-,6" ∧
      headers.select "2-,6" = .error (.columnOutOfRange 5 5) ∧
      selectPositions 5 "1,a" = .error (.headersRequired (.selectByName "1,a")) := by
  intro headers
  have inverted : parse "!4-3,5-" =
      .ok ⟨[.range (.position 3) (some (.position 2)), .range (.position 4) none], true⟩ := by decide +kernel
  have outside : parse "2-,6" =
      .ok ⟨[.range (.position 1) none, .single (.position 5)], false⟩ := by decide +kernel
  have named : parse "1,a" = .ok ⟨[.single (.position 0), .single (.named "a")], false⟩ := by decide +kernel
  refine ⟨(selectPositions_of_parsed headers inverted).1 (by decide), ?_,
    (selectPositions_of_parsed headers outside).1 (by decide), ?_,
    (selectPositions_of_parsed headers named).2 (by decide)⟩
  · rw [Headers.select, inverted]
    decide
  · rw [Headers.select, outside]
    decide

/-- A name between quotes is read back as that name, whatever its characters are. -/
theorem parse_quotedName (name : String) :
    parse (String.ofList (quotedName name)) = .ok ⟨[.single (.named name)], false⟩ := by
  have expressible : (Selector.single (.named name)).Expressible := trivial
  rw [parse_eq_ok_iff, String.toList_ofList]
  have first : trimStart (quotedName name) = quotedName name :=
    trimStart_of_head fun c found => by
      cases found
      decide
  refine .plain ?_ (.one (term_expression expressible))
  rw [first]
  simp [quotedName]

end Selection

/-- A name between quotes picks the first column of that name, or fails as looking it up does. -/
theorem Headers.select_quotedName (headers : Headers) (name : String) :
    headers.select (String.ofList (Selection.quotedName name)) =
      (headers.resolve (.named name)).map fun index => [index] := by
  rw [select, Selection.parse_quotedName, Outcome.ok_bind, Selection.indices]
  simp only [Selection.listed, Selector.indices]
  cases headers.resolve (.named name) <;> rfl

end ResumableCsv
