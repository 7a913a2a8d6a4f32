import ResumableCsv.Proofs.Text.Trim
import ResumableCsv.Selection.Parser

/-!
The grammar of selection expressions, and that reading accepts just its texts. Columns are quoted or
bare, a backslash takes any character as it is, and blanks may stand around every column. Digits
that are not in quotes are a position; in a column with an occurrence they are a name.
-/

namespace ResumableCsv.Selection

open Text

namespace Grammar

/-- A spelling of a text: every character stands for itself unless it is reserved, and behind a
backslash it always does. -/
inductive Units (reserved : List Char) : List Char → List Char → Prop
  | nil : Units reserved [] []
  | plain {c : Char} {spelled text : List Char} (free : c ∉ reserved)
    (rest : Units reserved spelled text) : Units reserved (c :: spelled) (c :: text)
  | escaped (c : Char) {spelled text : List Char} (rest : Units reserved spelled text) :
    Units reserved ('\\' :: c :: spelled) (c :: text)

/-- What a quoted column may not hold as it is. -/
def closing : List Char := ['"', '\\']

/-- What a bare column may not hold as it is. -/
def separators : List Char := [',', '-', '[', '\\']

inductive Column : List Char → Endpoint → Prop
  | quoted {spelled text : List Char} (units : Units closing spelled text) :
    Column ('"' :: (spelled ++ ['"'])) ⟨text, true⟩
  | bare {spelled text : List Char} (units : Units separators spelled text)
    (unquoted : ∀ c ∈ spelled.head?, c ≠ '"') (solid : ∀ c ∈ spelled.head?, isBlank c = false)
    (filled : trim text ≠ []) : Column spelled ⟨trim text, false⟩

/-- A column with blanks around it. -/
inductive Padded : List Char → Endpoint → Prop
  | intro {before spelled after : List Char} {column : Endpoint} (leading : Blank before)
    (written : Column spelled column) (trailing : Blank after) :
    Padded (before ++ (spelled ++ after)) column

/-- One or more digits whose value fits a counter. -/
structure Numeral (digits : List Char) (n : Nat) : Prop where
  filled : digits ≠ []
  all : digits.all isAsciiDigit = true
  value : digitsValue digits = n
  bound : n ≤ maxCounter

/-- The column that is meant: quoted texts are names, and bare ones unless all of it is digits,
which count the columns from one. -/
inductive Means : Endpoint → ColumnKey → Prop
  | quoted (text : List Char) : Means ⟨text, true⟩ (.named (String.ofList text))
  | position {digits : List Char} {index : Nat} (counted : Numeral digits (index + 1)) :
    Means ⟨digits, false⟩ (.position index)
  | name {text : List Char} (other : text.all isAsciiDigit = false) :
    Means ⟨text, false⟩ (.named (String.ofList text))

inductive Term : List Char → Selector → Prop
  | single {spelled : List Char} {column : Endpoint} {key : ColumnKey}
    (written : Padded spelled column) (meant : Means column key) : Term spelled (.single key)
  | indexed {spelled digits after : List Char} {column : Endpoint} {n : Nat}
    (written : Padded spelled column) (counted : Numeral digits n) (trailing : Blank after) :
    Term (spelled ++ '[' :: (digits ++ ']' :: after)) (.indexed (String.ofList column.text) n)
  | openRange {spelled after : List Char} {column : Endpoint} {key : ColumnKey}
    (written : Padded spelled column) (meant : Means column key) (trailing : Blank after) :
    Term (spelled ++ '-' :: after) (.range key none)
  | closedRange {spelled other : List Char} {first last : Endpoint} {key final : ColumnKey}
    (written : Padded spelled first) (meant : Means first key) (ended : Padded other last)
    (reached : Means last final) : Term (spelled ++ '-' :: other) (.range key (some final))

inductive Terms : List Char → List Selector → Prop
  | one {spelled : List Char} {selector : Selector} (written : Term spelled selector) :
    Terms spelled [selector]
  | more {spelled rest : List Char} {selector : Selector} {selectors : List Selector}
    (written : Term spelled selector) (others : Terms rest selectors) :
    Terms (spelled ++ ',' :: rest) (selector :: selectors)

/-- Terms, inverted by an exclamation mark that is the first character but for blanks. -/
inductive Expression : List Char → Selection → Prop
  | inverted {before body : List Char} {selectors : List Selector} (leading : Blank before)
    (written : Terms body selectors) : Expression (before ++ '!' :: body) ⟨selectors, true⟩
  | plain {body : List Char} {selectors : List Selector}
    (unmarked : (trimStart body).head? ≠ some '!') (written : Terms body selectors) :
    Expression body ⟨selectors, false⟩

end Grammar

open Grammar

/-- A bare column ends in front of such a text. -/
def Ends (rest : List Char) : Prop := ∀ c ∈ rest.head?, c = ',' ∨ c = '-' ∨ c = '['

variable {input spelled text rest : List Char}

theorem Ends.nil : Ends [] := by simp [Ends]

theorem Ends.cons {c : Char} (mark : c = ',' ∨ c = '-' ∨ c = '[') (rest : List Char) :
    Ends (c :: rest) := by
  intro first found
  cases found
  exact mark

theorem Ends.trimStart_eq (ends : Ends rest) : trimStart rest = rest := by
  apply trimStart_of_head
  intro c found
  rcases ends c found with rfl | rfl | rfl <;> decide

theorem Ends.trimStart_append {blanks : List Char} (ends : Ends rest) (blank : Blank blanks) :
    trimStart (blanks ++ rest) = rest := by
  rw [Text.trimStart_append blank, ends.trimStart_eq]

theorem mem_separators {c : Char} :
    c ∈ separators ↔ (c = ',' ∨ c = '-' ∨ c = '[') ∨ c = '\\' := by
  simp [separators, or_assoc]

theorem not_mem_separators_of_isBlank {c : Char} (blank : isBlank c = true) : c ∉ separators := by
  intro member
  rcases mem_separators.mp member with (rfl | rfl | rfl) | rfl <;> cases blank

theorem Grammar.Units.append {reserved later meant : List Char}
    (units : Units reserved spelled text) (others : Units reserved later meant) :
    Units reserved (spelled ++ later) (text ++ meant) := by
  induction units with
  | nil => exact others
  | plain free _ ih => exact .plain free ih
  | escaped c _ ih => exact .escaped c ih

/-- Without reserved characters a text spells itself. -/
theorem Grammar.Units.of_free {reserved : List Char} (free : ∀ c ∈ text, c ∉ reserved) :
    Units reserved text text := by
  induction text with
  | nil => exact .nil
  | cons c rest ih =>
    exact .plain (free c (by simp)) (ih fun other member => free other (by simp [member]))

theorem quotedText_plain {opening : List Char} {c : Char} (free : c ∉ closing) :
    quotedText opening (c :: rest) = (quotedText opening rest).map (consText c) := by
  obtain ⟨unquoted, unescaped⟩ : c ≠ '"' ∧ c ≠ '\\' := by simpa [closing] using free
  rw [quotedText.eq_4 _ _ _ (fun same _ => unescaped same) (fun _ _ same _ => unescaped same),
    if_neg unquoted]

theorem bareText_plain {c : Char} (free : c ∉ separators) :
    bareText (c :: rest) = (bareText rest).map (consText c) := by
  obtain ⟨inner, unescaped⟩ := not_or.mp (mt mem_separators.mpr free)
  rw [bareText.eq_4 _ _ (fun same _ => unescaped same) (fun _ _ same _ => unescaped same),
    if_neg inner]

theorem bareText_of_ends (ends : Ends rest) : bareText rest = .ok ([], rest) := by
  cases rest with
  | nil => rfl
  | cons c rest =>
    have mark := ends c rfl
    have unescaped : c ≠ '\\' := by rintro rfl; simp at mark
    rw [bareText.eq_4 _ _ (fun same _ => unescaped same) (fun _ _ same _ => unescaped same),
      if_pos mark]

/-- A character that is read as it is, alone or in front of others, is no backslash. -/
theorem ne_backslash {c : Char} {tail : List Char} (lone : c = '\\' → tail ≠ [])
    (paired : ∀ next more, c = '\\' → tail ≠ next :: more) : c ≠ '\\' := by
  rintro rfl
  cases tail with
  | nil => exact lone rfl rfl
  | cons next more => exact paired next more rfl rfl

/-- The text of a quoted column is what is spelled in front of the closing quote. -/
theorem quotedText_eq_ok_iff {opening : List Char} :
    quotedText opening input = .ok (text, rest) ↔
      ∃ spelled, input = spelled ++ '"' :: rest ∧ Units closing spelled text := by
  constructor
  · intro parsed
    fun_induction quotedText opening input generalizing text rest with
    | case1 => cases parsed
    | case2 => cases parsed
    | case3 c tail ih =>
      obtain ⟨⟨inner, left⟩, found, same⟩ := Outcome.map_eq_ok_iff.mp parsed
      obtain ⟨spelled, rfl, units⟩ := ih found
      cases same
      exact ⟨'\\' :: c :: spelled, rfl, .escaped c units⟩
    | case4 tail =>
      cases parsed
      exact ⟨[], rfl, .nil⟩
    | case5 c tail lone paired unquoted ih =>
      have unescaped : c ≠ '\\' := ne_backslash lone paired
      obtain ⟨⟨inner, left⟩, found, same⟩ := Outcome.map_eq_ok_iff.mp parsed
      obtain ⟨spelled, rfl, units⟩ := ih found
      cases same
      exact ⟨c :: spelled, rfl, .plain (by simp [closing, unquoted, unescaped]) units⟩
  · rintro ⟨spelled, rfl, units⟩
    induction units with
    | nil => rfl
    | plain free _ ih => rw [List.cons_append, quotedText_plain free, ih]; rfl
    | escaped c _ ih => rw [List.cons_append, List.cons_append, quotedText, ih]; rfl

theorem bareText_sound (parsed : bareText input = .ok (text, rest)) :
    ∃ spelled, input = spelled ++ rest ∧ Units separators spelled text ∧ Ends rest := by
  fun_induction bareText input generalizing text rest with
  | case1 =>
    cases parsed
    exact ⟨[], rfl, .nil, .nil⟩
  | case2 => cases parsed
  | case3 c tail ih =>
    obtain ⟨⟨inner, left⟩, found, same⟩ := Outcome.map_eq_ok_iff.mp parsed
    obtain ⟨spelled, rfl, units, ends⟩ := ih found
    cases same
    exact ⟨'\\' :: c :: spelled, rfl, .escaped c units, ends⟩
  | case4 c tail _ _ mark =>
    cases parsed
    exact ⟨[], rfl, .nil, .cons mark tail⟩
  | case5 c tail lone paired inner ih =>
    obtain ⟨⟨text, left⟩, found, same⟩ := Outcome.map_eq_ok_iff.mp parsed
    obtain ⟨spelled, split, units, ends⟩ := ih found
    cases same
    have free : c ∉ separators := fun member =>
      (mem_separators.mp member).elim inner (ne_backslash lone paired)
    exact ⟨c :: spelled, by rw [split]; rfl, .plain free units, ends⟩

theorem bareText_complete (units : Units separators spelled text) (ends : Ends rest) :
    bareText (spelled ++ rest) = .ok (text, rest) := by
  induction units with
  | nil => exact bareText_of_ends ends
  | plain free _ ih => rw [List.cons_append, bareText_plain free, ih]; rfl
  | escaped c _ ih => rw [List.cons_append, List.cons_append, bareText, ih]; rfl

theorem endpoint_trimStart (input : List Char) : endpoint (trimStart input) = endpoint input := by
  rw [endpoint, trimStart_trimStart, ← endpoint]

/-- What reading a column leaves, and how it was written unless it is empty. -/
theorem endpoint_sound {column : Endpoint} (parsed : endpoint input = .ok (column, rest)) :
    trimStart rest = rest ∧ ((column.quoted = true ∨ column.text ≠ []) →
      ∃ spelled, input = spelled ++ rest ∧ Padded spelled column) := by
  obtain ⟨before, split, leading⟩ := exists_blanks_trimStart input
  have solid := head_trimStart input
  unfold endpoint at parsed
  split at parsed
  next body same =>
    obtain ⟨⟨text, left⟩, read, built⟩ := Outcome.do_eq_ok_iff.mp parsed
    obtain ⟨spelled, rfl, units⟩ := quotedText_eq_ok_iff.mp read
    obtain ⟨after, behind, trailing⟩ := exists_blanks_trimStart left
    cases built
    refine ⟨trimStart_trimStart left, fun _ => ⟨_, ?_, .intro leading (.quoted units) trailing⟩⟩
    rw [split, same]
    simp only [List.append_assoc, List.cons_append, List.nil_append, ← behind]
  next unquoted =>
    obtain ⟨⟨text, left⟩, read, built⟩ := Outcome.do_eq_ok_iff.mp parsed
    obtain ⟨spelled, whole, units, ends⟩ := bareText_sound read
    cases built
    refine ⟨ends.trimStart_eq, fun filled => ?_⟩
    have head {c : Char} (found : c ∈ spelled.head?) : (trimStart input).head? = some c := by
      obtain ⟨more, rfl⟩ := List.head?_eq_some_iff.mp found
      rw [whole]
      rfl
    refine ⟨before ++ (spelled ++ []), ?_, .intro leading (.bare units ?_ ?_ ?_) .nil⟩
    · rw [List.append_nil, List.append_assoc, ← whole, ← split]
    · rintro c found rfl
      obtain ⟨more, same⟩ := List.head?_eq_some_iff.mp (head found)
      exact unquoted more same
    · exact fun c found => solid c (head found)
    · exact filled.resolve_left (Bool.false_ne_true ·)

theorem endpoint_quoted {inner after : List Char} (units : Units closing inner text)
    (trailing : Blank after) (ends : Ends rest) :
    endpoint ('"' :: (inner ++ '"' :: (after ++ rest))) = .ok (⟨text, true⟩, rest) := by
  have first : trimStart ('"' :: (inner ++ '"' :: (after ++ rest))) =
      '"' :: (inner ++ '"' :: (after ++ rest)) := rfl
  have read (opening : List Char) :
      quotedText opening (inner ++ '"' :: (after ++ rest)) = .ok (text, after ++ rest) :=
    quotedText_eq_ok_iff.mpr ⟨inner, rfl, units⟩
  rw [endpoint, first]
  simp only [read, Outcome.ok_bind, ends.trimStart_append trailing]
  rfl

theorem endpoint_bare {c : Char} (unquoted : c ≠ '"') (solid : isBlank c = false)
    (units : Units separators (c :: spelled) text) (ends : Ends rest) :
    endpoint (c :: (spelled ++ rest)) = .ok (⟨trim text, false⟩, rest) := by
  have first : trimStart (c :: (spelled ++ rest)) = c :: (spelled ++ rest) :=
    trimStart_of_head fun other found => by
      cases found
      exact solid
  have read := bareText_complete units ends
  rw [List.cons_append] at read
  rw [endpoint, first]
  split
  next same => exact absurd (List.cons.inj same).1 unquoted
  next =>
    simp only [read, Outcome.ok_bind]
    rfl

theorem endpoint_complete {column : Endpoint} (written : Padded spelled column)
    (ends : Ends rest) : endpoint (spelled ++ rest) = .ok (column, rest) := by
  cases written with
  | @intro before spelled after _ leading written trailing =>
    rw [List.append_assoc, ← endpoint_trimStart, trimStart_append leading, endpoint_trimStart,
      List.append_assoc]
    cases written with
    | @quoted inner text units =>
      rw [List.cons_append, List.append_assoc, List.singleton_append]
      exact endpoint_quoted units trailing ends
    | @bare _ text units unquoted solid filled =>
      cases spelled with
      | nil =>
        cases units
        exact absurd rfl filled
      | cons c more =>
        -- the blanks behind a bare column are read as a part of it and trimmed
        have behind : Units separators after after :=
          .of_free fun c member => not_mem_separators_of_isBlank (trailing c member)
        rw [← trim_append_blanks trailing text, ← List.append_assoc]
        exact endpoint_bare (unquoted c rfl) (solid c rfl) (units.append behind) ends

theorem readDigits?_eq_some_iff {digits : List Char} {n : Nat} :
    readDigits? digits = some n ↔ Numeral digits n := by
  unfold readDigits?
  constructor
  · intro read
    split at read
    next good =>
      obtain rfl := Option.some.inj read
      exact ⟨good.1, good.2.1, rfl, good.2.2⟩
    next => cases read
  · rintro ⟨filled, all, rfl, bound⟩
    rw [if_pos ⟨filled, all, bound⟩]

theorem columnKey_of_digits {digits start : List Char} {key : ColumnKey}
    (all : digits.all isAsciiDigit = true) :
    columnKey ⟨digits, false⟩ start = .ok key ↔
      ∃ index, key = .position index ∧ Numeral digits (index + 1) := by
  by_cases empty : digits = []
  · rw [columnKey, if_neg Bool.false_ne_true, if_pos empty]
    constructor
    · intro found
      cases found
    · rintro ⟨index, _, counted⟩
      exact absurd empty counted.filled
  · rw [columnKey, if_neg Bool.false_ne_true, if_neg empty, if_pos all]
    constructor
    · intro found
      split at found
      next => cases found
      next => cases found
      next index read =>
        cases found
        exact ⟨index, rfl, readDigits?_eq_some_iff.mp read⟩
    · rintro ⟨index, rfl, counted⟩
      simp only [readDigits?_eq_some_iff.mpr counted]

theorem columnKey_of_name {start : List Char} (other : text.all isAsciiDigit = false) :
    columnKey ⟨text, false⟩ start = .ok (.named (String.ofList text)) := by
  have filled : text ≠ [] := by
    rintro rfl
    cases other
  rw [columnKey, if_neg Bool.false_ne_true, if_neg filled, if_neg (by simp [other])]

/-- The key of a column is the one it means. -/
theorem columnKey_eq_ok_iff {column : Endpoint} {start : List Char} {key : ColumnKey} :
    columnKey column start = .ok key ↔ Means column key := by
  constructor
  · intro found
    obtain ⟨text, quoted⟩ := column
    cases quoted with
    | true =>
      cases found
      exact .quoted text
    | false =>
      cases all : text.all isAsciiDigit with
      | true =>
        obtain ⟨index, rfl, counted⟩ := (columnKey_of_digits all).mp found
        exact .position counted
      | false =>
        rw [columnKey_of_name all] at found
        cases found
        exact .name all
  · intro meant
    cases meant with
    | quoted text => rfl
    | @position digits index counted =>
      exact (columnKey_of_digits counted.all).mpr ⟨index, rfl, counted⟩
    | name other => exact columnKey_of_name other

theorem Grammar.Means.columnKey_eq {column : Endpoint} {key : ColumnKey}
    (meant : Means column key) (start : List Char) : columnKey column start = .ok key :=
  columnKey_eq_ok_iff.mpr meant

theorem bracketDigits_eq_some_iff {digits : List Char} :
    bracketDigits input = some (digits, rest) ↔
      input = digits ++ ']' :: rest ∧ digits.all isAsciiDigit = true := by
  constructor
  · intro found
    fun_induction bracketDigits input generalizing digits rest with
    | case1 => cases found
    | case2 tail =>
      cases found
      exact ⟨rfl, rfl⟩
    | case3 c tail _ digit ih =>
      obtain ⟨⟨inner, left⟩, read, same⟩ := Option.map_eq_some_iff.mp found
      obtain ⟨rfl, all⟩ := ih read
      cases same
      exact ⟨rfl, by rw [List.all_cons, digit, all]; rfl⟩
    | case4 => cases found
  · rintro ⟨rfl, all⟩
    induction digits with
    | nil => rfl
    | cons c digits ih =>
      rw [List.all_cons, Bool.and_eq_true] at all
      have unclosed : c ≠ ']' := by
        rintro rfl
        exact absurd all.1 (by decide)
      rw [List.cons_append, bracketDigits, if_neg unclosed, if_pos all.1, ih all.2]
      rfl

theorem occurrence_eq_ok_iff {start : List Char} {n : Nat} :
    occurrence start input = .ok (n, rest) ↔
      ∃ digits, input = digits ++ ']' :: rest ∧ Numeral digits n := by
  unfold occurrence
  constructor
  · intro found
    split at found
    next => cases found
    next digits left bracketed =>
      split at found
      next => cases found
      next value read =>
        cases found
        exact ⟨digits, (bracketDigits_eq_some_iff.mp bracketed).1, readDigits?_eq_some_iff.mp read⟩
  · rintro ⟨digits, whole, counted⟩
    rw [bracketDigits_eq_some_iff.mpr ⟨whole, counted.all⟩]
    simp only [readDigits?_eq_some_iff.mpr counted]

/-- Only a column that is there means one. -/
theorem Grammar.Means.there {column : Endpoint} {key : ColumnKey} (meant : Means column key) :
    column.quoted = true ∨ column.text ≠ [] := by
  cases meant with
  | quoted => exact .inl rfl
  | position counted => exact .inr counted.filled
  | name other =>
    right
    rintro rfl
    cases other

/-- What stands behind a whole term. -/
def Follows (rest : List Char) : Prop := ∀ c ∈ rest.head?, c = ','

theorem Follows.ends (follows : Follows rest) : Ends rest := fun c found => .inl (follows c found)

theorem Follows.cons (rest : List Char) : Follows (',' :: rest) := by
  intro c found
  cases found
  rfl

theorem rangeEnd_sound {final : Option ColumnKey}
    (parsed : rangeEnd input = .ok (final, rest)) :
    trimStart rest = rest ∧
      ((final = none ∧ ∃ blanks, input = blanks ++ rest ∧ Blank blanks) ∨
        ∃ spelled column key, final = some key ∧ input = spelled ++ rest ∧
          Padded spelled column ∧ Means column key) := by
  obtain ⟨before, split, leading⟩ := exists_blanks_trimStart input
  have idle := trimStart_trimStart input
  unfold rangeEnd at parsed
  split at parsed
  next nothing =>
    cases parsed
    exact ⟨rfl, .inl ⟨rfl, before, by rw [← nothing]; exact split, leading⟩⟩
  next tail comma =>
    cases parsed
    rw [comma] at split idle
    exact ⟨idle, .inl ⟨rfl, before, split, leading⟩⟩
  next =>
    obtain ⟨⟨column, left⟩, read, checked⟩ := Outcome.do_eq_ok_iff.mp parsed
    rw [endpoint_trimStart] at read
    obtain ⟨trimmed, written⟩ := endpoint_sound read
    dsimp only at checked
    split at checked
    next => cases checked
    next =>
      obtain ⟨key, found, built⟩ := Outcome.do_eq_ok_iff.mp checked
      have meant := columnKey_eq_ok_iff.mp found
      obtain ⟨spelled, whole, padded⟩ := written meant.there
      cases built
      exact ⟨trimmed, .inr ⟨spelled, column, key, rfl, whole, padded, meant⟩⟩

theorem rangeEnd_open {blanks : List Char} (blank : Blank blanks) (follows : Follows rest) :
    rangeEnd (blanks ++ rest) = .ok (none, rest) := by
  rw [rangeEnd, follows.ends.trimStart_append blank]
  cases rest with
  | nil => rfl
  | cons c rest =>
    obtain rfl := follows c rfl
    rfl

theorem Grammar.Padded.head_ne_comma {column : Endpoint} (written : Padded spelled column)
    (rest : List Char) : ∃ c more, trimStart (spelled ++ rest) = c :: more ∧ c ≠ ',' := by
  cases written with
  | @intro before spelled after _ leading written trailing =>
    rw [List.append_assoc, trimStart_append leading, List.append_assoc]
    cases written with
    | @quoted inner text units => exact ⟨'"', _, trimStart_of_head (by simp; decide), by decide⟩
    | @bare _ text units unquoted solid filled =>
      cases spelled with
      | nil =>
        cases units
        exact absurd rfl filled
      | cons c more =>
        refine ⟨c, _, trimStart_of_head fun other found => ?_, ?_⟩
        · cases found
          exact solid c rfl
        · rintro rfl
          cases units with
          | plain free _ => exact free (by decide)

theorem rangeEnd_closed {column : Endpoint} {key : ColumnKey} (written : Padded spelled column)
    (meant : Means column key) (follows : Follows rest) :
    rangeEnd (spelled ++ rest) = .ok (some key, rest) := by
  obtain ⟨c, more, first, other⟩ := written.head_ne_comma rest
  have read := endpoint_complete written follows.ends
  rw [← endpoint_trimStart] at read
  unfold rangeEnd
  split
  next nothing => rw [first] at nothing; cases nothing
  next tail comma => rw [first] at comma; exact absurd (List.cons.inj comma).1 other
  next =>
    simp only [read, Outcome.ok_bind]
    split
    next tail => cases follows '[' rfl
    next => rw [meant.columnKey_eq]; rfl

/-- What is read as one term is one, and no blank is left behind it. -/
theorem term_sound {selector : Selector} (parsed : term input = .ok (selector, rest)) :
    trimStart rest = rest ∧ ∃ spelled, input = spelled ++ rest ∧ Term spelled selector := by
  obtain ⟨⟨column, left⟩, read, checked⟩ := Outcome.do_eq_ok_iff.mp parsed
  rw [endpoint_trimStart] at read
  obtain ⟨trimmed, written⟩ := endpoint_sound read
  dsimp only at checked
  split at checked
  next => cases checked
  next filled =>
    split at checked
    next tail =>
      obtain ⟨⟨n, behind⟩, counted, built⟩ := Outcome.do_eq_ok_iff.mp checked
      obtain ⟨digits, rfl, numeral⟩ := occurrence_eq_ok_iff.mp counted
      have there : column.quoted = true ∨ column.text ≠ [] := by
        by_cases empty : column.text = []
        · exact .inl (by simpa [empty] using filled)
        · exact .inr empty
      obtain ⟨spelled, rfl, padded⟩ := written there
      obtain ⟨after, split, trailing⟩ := exists_blanks_trimStart behind
      dsimp only at built
      split at built
      next => cases built
      next =>
        cases built
        refine ⟨trimStart_trimStart behind, _, ?_, .indexed padded numeral trailing⟩
        simp only [List.append_assoc, List.cons_append, ← split]
    next tail =>
      obtain ⟨key, found, continued⟩ := Outcome.do_eq_ok_iff.mp checked
      obtain ⟨⟨final, behind⟩, ended, built⟩ := Outcome.do_eq_ok_iff.mp continued
      have meant := columnKey_eq_ok_iff.mp found
      obtain ⟨spelled, rfl, padded⟩ := written meant.there
      cases built
      obtain ⟨idle, ⟨rfl, after, rfl, trailing⟩ | ⟨other, last, far, rfl, rfl, reached, means⟩⟩ :=
        rangeEnd_sound ended
      · exact ⟨idle, spelled ++ '-' :: after, by simp, .openRange padded meant trailing⟩
      · exact ⟨idle, spelled ++ '-' :: other, by simp, .closedRange padded meant reached means⟩
    next =>
      obtain ⟨key, found, built⟩ := Outcome.do_eq_ok_iff.mp checked
      have meant := columnKey_eq_ok_iff.mp found
      obtain ⟨spelled, rfl, padded⟩ := written meant.there
      cases built
      exact ⟨trimmed, spelled, rfl, .single padded meant⟩

/-- The column a term starts with is read, and the rest of the term is left. -/
theorem endpoint_of_padded {column : Endpoint} (written : Padded spelled column)
    (ends : Ends rest) : endpoint (trimStart (spelled ++ rest)) = .ok (column, rest) ∧
      ¬(column.text = [] ∧ column.quoted = false) := by
  refine ⟨by rw [endpoint_trimStart, endpoint_complete written ends], ?_⟩
  cases written with
  | intro _ written _ =>
    cases written with
    | quoted => exact fun both => Bool.noConfusion both.2
    | bare _ _ _ filled => exact fun both => filled both.1

theorem term_complete {selector : Selector} (written : Term spelled selector)
    (follows : Follows rest) : term (spelled ++ rest) = .ok (selector, rest) := by
  cases written with
  | @single _ column key written meant =>
    obtain ⟨read, there⟩ := endpoint_of_padded written follows.ends
    simp only [term, read, Outcome.ok_bind, if_neg there]
    split
    next => cases follows '[' rfl
    next => cases follows '-' rfl
    next => rw [meant.columnKey_eq]; rfl
  | @indexed spelled digits after column n written counted trailing =>
    obtain ⟨read, there⟩ := endpoint_of_padded written
      (.cons (.inr (.inr rfl)) (digits ++ ']' :: (after ++ rest)))
    have number (start : List Char) :
        occurrence start (digits ++ ']' :: (after ++ rest)) = .ok (n, after ++ rest) :=
      occurrence_eq_ok_iff.mpr ⟨digits, rfl, counted⟩
    simp only [List.append_assoc, List.cons_append, term, read, Outcome.ok_bind, if_neg there,
      number, follows.ends.trimStart_append trailing]
    split
    next => cases follows '-' rfl
    next => rfl
  | @openRange spelled after column key written meant trailing =>
    obtain ⟨read, there⟩ := endpoint_of_padded written (.cons (.inr (.inl rfl)) (after ++ rest))
    simp only [List.append_assoc, List.cons_append, term, read, Outcome.ok_bind, if_neg there,
      meant.columnKey_eq, rangeEnd_open trailing follows]
    rfl
  | @closedRange spelled other first last key final written meant ended reached =>
    obtain ⟨read, there⟩ := endpoint_of_padded written (.cons (.inr (.inl rfl)) (other ++ rest))
    simp only [List.append_assoc, List.cons_append, term, read, Outcome.ok_bind, if_neg there,
      meant.columnKey_eq, rangeEnd_closed ended reached follows]
    rfl

theorem terms_of_term {selector : Selector} (read : term input = .ok (selector, rest)) :
    terms input =
      match trimStart rest with
      | [] => .ok [selector]
      | c :: more =>
        if c = ',' then (terms more).map (selector :: ·)
        else .error ⟨c :: more, .unexpectedCharacter⟩ := by
  rw [terms]
  split
  next failed =>
    rw [read] at failed
    cases failed
  next found =>
    rw [read] at found
    cases found
    split <;> rename_i after <;> rw [after]

/-- Reading terms accepts just the texts of terms. -/
theorem terms_eq_ok_iff {selectors : List Selector} :
    terms input = .ok selectors ↔ Terms input selectors := by
  constructor
  · intro parsed
    fun_induction terms input generalizing selectors with
    | case1 => cases parsed
    | case2 input selector rest read after =>
      cases parsed
      obtain ⟨idle, spelled, rfl, written⟩ := term_sound read
      rw [← idle, after, List.append_nil]
      exact .one written
    | case3 input selector rest read more after ih =>
      obtain ⟨others, found, rfl⟩ := Outcome.map_eq_ok_iff.mp parsed
      obtain ⟨idle, spelled, rfl, written⟩ := term_sound read
      rw [← idle, after]
      exact .more written (ih found)
    | case4 => cases parsed
  · intro written
    induction written with
    | one written =>
      have read := term_complete written (show Follows [] by simp [Follows])
      rw [List.append_nil] at read
      rw [terms_of_term read]
      rfl
    | @more spelled rest _ _ written _ ih =>
      rw [terms_of_term (term_complete written (.cons rest)), (Follows.cons rest).ends.trimStart_eq]
      simp only [if_true, ih]
      rfl

theorem term_trimStart (input : List Char) : term (trimStart input) = term input := by
  rw [term, trimStart_trimStart, ← term]

theorem terms_trimStart (input : List Char) : terms (trimStart input) = terms input := by
  cases read : term input with
  | ok taken =>
    have same := (term_trimStart input).trans read
    rw [terms_of_term read, terms_of_term same]
  | error complaint =>
    have same := (term_trimStart input).trans read
    rw [terms, terms]
    split
    next => split <;> simp_all
    next => simp_all

/-- Blanks in front of the first term do not matter. -/
theorem Grammar.terms_trimStart_iff {selectors : List Selector} :
    Terms (trimStart input) selectors ↔ Terms input selectors := by
  rw [← terms_eq_ok_iff, terms_trimStart, terms_eq_ok_iff]

theorem terms_of_blank {selectors : List Selector} (blank : trimStart input = []) :
    terms input ≠ .ok selectors := by
  intro parsed
  have failed : term input = .error ⟨[], .expectedColumn⟩ := by
    rw [term, blank]
    rfl
  rw [terms] at parsed
  split at parsed
  next => cases parsed
  next found =>
    rw [failed] at found
    cases found

theorem splitMark_of_mark {before body : List Char} (leading : Blank before) :
    splitMark (before ++ '!' :: body) = (true, body) := by
  have idle : trimStart ('!' :: body) = '!' :: body := rfl
  unfold splitMark
  rw [trimStart_append leading, idle]
  rfl

theorem splitMark_of_head (unmarked : (trimStart input).head? ≠ some '!') :
    splitMark input = (false, trimStart input) := by
  unfold splitMark
  split
  next body same => exact absurd (by rw [same]; rfl) unmarked
  next => rfl

/-- Behind the mark, terms decide. -/
theorem ofChars_of_splitMark {inverted : Bool} {body : List Char} {selection : Selection}
    (marked : splitMark input = (inverted, body)) :
    ofChars input = .ok selection ↔
      selection.inverted = inverted ∧ Terms body selection.selectors := by
  rw [ofChars, marked]
  dsimp only
  split
  next blank =>
    have empty : trimStart body = [] := trim_eq_nil_iff.mp (by simpa using blank)
    constructor
    · intro parsed
      cases parsed
    · rintro ⟨_, written⟩
      exact absurd (terms_eq_ok_iff.mpr written) (terms_of_blank empty)
  next =>
    rw [Outcome.map_eq_ok_iff]
    constructor
    · rintro ⟨selectors, read, rfl⟩
      exact ⟨rfl, terms_eq_ok_iff.mp read⟩
    · rintro ⟨rfl, written⟩
      exact ⟨selection.selectors, terms_eq_ok_iff.mpr written, rfl⟩

theorem ofChars_eq_ok_iff {selection : Selection} :
    ofChars input = .ok selection ↔ Expression input selection := by
  obtain ⟨before, split, leading⟩ := exists_blanks_trimStart input
  obtain ⟨selectors, inverted⟩ := selection
  constructor
  · intro parsed
    by_cases unmarked : (trimStart input).head? = some '!'
    · obtain ⟨body, same⟩ := List.head?_eq_some_iff.mp unmarked
      rw [same] at split
      rw [split] at parsed ⊢
      obtain ⟨rfl, written⟩ := (ofChars_of_splitMark (splitMark_of_mark leading)).mp parsed
      exact .inverted leading written
    · obtain ⟨rfl, written⟩ := (ofChars_of_splitMark (splitMark_of_head unmarked)).mp parsed
      exact .plain unmarked (terms_trimStart_iff.mp written)
  · intro written
    cases written with
    | inverted leading written =>
      exact (ofChars_of_splitMark (splitMark_of_mark leading)).mpr ⟨rfl, written⟩
    | plain unmarked written =>
      exact (ofChars_of_splitMark (splitMark_of_head unmarked)).mpr
        ⟨rfl, terms_trimStart_iff.mpr written⟩

theorem parse_iff_ofChars {text : String} {selection : Selection} :
    parse text = .ok selection ↔ ofChars text.toList = .ok selection := by
  rw [parse]
  cases ofChars text.toList <;> simp [Except.mapError]

/-- What an expression is read as is what the grammar says it is. -/
theorem parse_eq_ok_iff {text : String} {selection : Selection} :
    parse text = .ok selection ↔ Expression text.toList selection :=
  parse_iff_ofChars.trans ofChars_eq_ok_iff

/-- Reading succeeds just on the expressions of the grammar. -/
theorem parse_succeeds_iff (text : String) :
    (∃ selection, parse text = .ok selection) ↔ ∃ selection, Expression text.toList selection :=
  exists_congr fun _ => parse_eq_ok_iff

end ResumableCsv.Selection
