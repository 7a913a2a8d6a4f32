import ResumableCsv.Proofs.Record.Spelling

/-!
Texts as lines: every line spells a record or is blank, ends with a line feed, perhaps behind a
carriage return, and the line feed of the last line may be missing. Scanning hands out the records
of the lines that are not blank, one after the other.
-/

namespace ResumableCsv.Record

/-- The fields on one line, none on a blank one. -/
structure Line where
  fields : List Spelled
  carriage : Bool
deriving DecidableEq, Repr

def Line.ending (line : Line) : Bytes :=
  if line.carriage then [carriageReturn, lineFeed] else [lineFeed]

def Line.text (dialect : Dialect) (line : Line) : Bytes :=
  rowText dialect line.fields ++ line.ending

def linesText (dialect : Dialect) (lines : List Line) : Bytes := lines.flatMap (Line.text dialect)

/-- The offsets at which the records of lines start, the first line standing at `offset`. -/
def lineStarts (dialect : Dialect) (offset : Nat) : List Line → List Nat
  | [] => []
  | line :: lines =>
    let later := lineStarts dialect (offset + (line.text dialect).length) lines
    if rowText dialect line.fields = [] then later else offset :: later

/-- Lines, and what stands behind the last line feed. -/
structure Document where
  lines : List Line
  last : List Spelled := []
deriving DecidableEq, Repr

namespace Document

def text (dialect : Dialect) (document : Document) : Bytes :=
  linesText dialect document.lines ++ rowText dialect document.last

def rows (document : Document) : List (List Spelled) :=
  document.lines.map Line.fields ++ [document.last]

/-- The records of a text: its lines without the blank ones. -/
def records (dialect : Dialect) (document : Document) : List (List Spelled) :=
  document.rows.filter fun fields => rowText dialect fields ≠ []

/-- The offsets at which the records of a text start, the text standing at `offset`. -/
def starts (dialect : Dialect) (document : Document) (offset : Nat) : List Nat :=
  lineStarts dialect offset document.lines ++
    if rowText dialect document.last = [] then []
    else [offset + (linesText dialect document.lines).length]

def Fair (dialect : Dialect) (document : Document) : Prop :=
  ∀ fields ∈ document.rows, ∀ field ∈ fields, field.Fair dialect

instance (dialect : Dialect) (document : Document) : Decidable (document.Fair dialect) :=
  inferInstanceAs (Decidable (∀ fields ∈ document.rows, ∀ field ∈ fields, field.Fair dialect))

theorem text_cons (dialect : Dialect) (line : Line) (lines : List Line) (last : List Spelled) :
    text dialect ⟨line :: lines, last⟩ =
      rowText dialect line.fields ++ (line.ending ++ text dialect ⟨lines, last⟩) := by
  simp [text, linesText, Line.text]

theorem Fair.tail {dialect : Dialect} {line : Line} {lines : List Line} {last : List Spelled}
    (fair : Fair dialect ⟨line :: lines, last⟩) : Fair dialect ⟨lines, last⟩ :=
  fun fields member => fair fields (List.mem_cons_of_mem line.fields member)

theorem Fair.head {dialect : Dialect} {line : Line} {lines : List Line} {last : List Spelled}
    (fair : Fair dialect ⟨line :: lines, last⟩) : ∀ field ∈ line.fields, field.Fair dialect :=
  fair line.fields (by simp [rows])

theorem records_cons (dialect : Dialect) (line : Line) (lines : List Line) (last : List Spelled) :
    records dialect ⟨line :: lines, last⟩ =
      if rowText dialect line.fields = [] then records dialect ⟨lines, last⟩
      else line.fields :: records dialect ⟨lines, last⟩ := by
  by_cases blank : rowText dialect line.fields = [] <;> simp [records, rows, blank]

theorem starts_cons (dialect : Dialect) (line : Line) (lines : List Line) (last : List Spelled)
    (offset : Nat) :
    starts dialect ⟨line :: lines, last⟩ offset =
      if rowText dialect line.fields = [] then
        starts dialect ⟨lines, last⟩ (offset + (line.text dialect).length)
      else offset :: starts dialect ⟨lines, last⟩ (offset + (line.text dialect).length) := by
  have total : (linesText dialect (line :: lines)).length =
      (line.text dialect).length + (linesText dialect lines).length := by
    simp [linesText]
  rw [starts, starts, lineStarts, total, Nat.add_assoc]
  split <;> rfl

/-- What scanning one record leaves of a text: the carriage return of its line is gone, and the
line feed behind it counts as a blank line. -/
def behind (line : Line) (rest : Document) : Document :=
  if line.carriage then { rest with lines := ⟨[], false⟩ :: rest.lines } else rest

theorem records_behind (dialect : Dialect) (line : Line) (rest : Document) :
    records dialect (behind line rest) = records dialect rest := by
  unfold behind
  split
  · exact records_cons dialect ⟨[], false⟩ rest.lines rest.last
  · rfl

theorem Fair.behind {dialect : Dialect} {rest : Document} (fair : rest.Fair dialect) (line : Line) :
    (behind line rest).Fair dialect := by
  unfold Document.behind
  split
  · intro fields member
    simp only [rows, List.map_cons, List.cons_append, List.mem_cons] at member
    rcases member with rfl | member
    · simp
    · exact fair fields member
  · exact fair

theorem stopAt_ending {dialect : Dialect} (proper : dialect.Proper) (line : Line)
    (rest : Document) :
    stopAt dialect (line.ending ++ rest.text dialect) =
      (.terminator, (behind line rest).text dialect) := by
  have feed : lineFeed ≠ dialect.delimiter := proper.ne_delimiter rfl
  have carriage : carriageReturn ≠ dialect.delimiter := proper.ne_delimiter rfl
  cases returns : line.carriage with
  | false => simp [Line.ending, behind, returns, stopAt, feed]
  | true =>
    simp only [Line.ending, behind, returns, if_true, List.cons_append, stopAt, if_neg carriage]
    simp [text_cons, rowText, Line.ending]

theorem closes_ending (line : Line) (rest : Bytes) : Closes (line.ending ++ rest) := by
  intro byte found
  cases returns : line.carriage <;> simp only [Line.ending, returns] at found <;>
    cases found <;> rfl

theorem terminators_ending (line : Line) : ∀ byte ∈ line.ending, isTerminator byte = true := by
  cases returns : line.carriage <;> simp [Line.ending, returns, isTerminator]

theorem scanRecord_of_records_nil {dialect : Dialect} {document : Document}
    (none_left : document.records dialect = []) :
    scanRecord dialect (document.text dialect) = none := by
  obtain ⟨lines, last⟩ := document
  induction lines with
  | nil =>
    have blank : rowText dialect last = [] := by
      simpa [records, rows] using none_left
    simp [text, linesText, blank, scanRecord]
  | cons line lines ih =>
    rw [records_cons] at none_left
    split at none_left
    next blank =>
      rw [text_cons, blank, List.nil_append, scanRecord_append dialect (terminators_ending line)]
      exact ih none_left
    next => cases none_left

theorem length_text_behind (dialect : Dialect) (line : Line) (rest : Document) :
    (text dialect (behind line rest)).length + (rowText dialect line.fields).length + 1 =
      (line.text dialect).length + (rest.text dialect).length := by
  obtain ⟨lines, last⟩ := rest
  cases returns : line.carriage <;>
    simp [behind, returns, Line.text, Line.ending, text_cons, rowText] <;> omega

theorem starts_behind (dialect : Dialect) (line : Line) (rest : Document) (offset : Nat) :
    starts dialect (behind line rest) (offset + (rowText dialect line.fields).length + 1) =
      starts dialect rest (offset + (line.text dialect).length) := by
  cases returns : line.carriage with
  | false => simp [behind, returns, Line.text, Line.ending, Nat.add_assoc]
  | true =>
    simp [behind, returns, starts_cons, Line.text, Line.ending, rowText, Nat.add_assoc]

/-- Scanning takes the first record and leaves a text of the others, where they were. -/
theorem scanRecord_starts {dialect : Dialect} (proper : dialect.Proper)
    {document : Document} (fair : document.Fair dialect) {first : List Spelled}
    {others : List (List Spelled)} (found : document.records dialect = first :: others) :
    ∃ ending rest skipped, scanRecord dialect (document.text dialect) =
        some ⟨first.map Spelled.content, ending, text dialect rest⟩ ∧
      rest.Fair dialect ∧ rest.records dialect = others ∧
      skipped + (rest.text dialect).length = (document.text dialect).length ∧
      ∀ offset, (document.starts dialect offset).tail = rest.starts dialect (offset + skipped) := by
  obtain ⟨lines, last⟩ := document
  induction lines with
  | nil =>
    by_cases blank : rowText dialect last = []
    · simp [records, rows, blank] at found
    · have same : last = first ∧ [] = others := by simpa [records, rows, blank] using found
      obtain ⟨rfl, rfl⟩ := same
      have scanned := scanRecord_rowText proper (fair last (by simp [rows])) blank
        (show Closes [] by simp [Closes])
      refine ⟨.inputEnd, ⟨[], []⟩, (text dialect ⟨[], last⟩).length, ?_, by simp [Fair, rows],
        by simp [records, rows, rowText], by simp [text, linesText, rowText],
        fun _ => by simp [starts, lineStarts, blank, rowText]⟩
      simpa [text, linesText, stopAt, rowText] using scanned
  | cons line lines ih =>
    have total : (text dialect ⟨line :: lines, last⟩).length =
        (line.text dialect).length + (text dialect ⟨lines, last⟩).length := by
      simp [text_cons, Line.text, Nat.add_assoc]
    rw [records_cons] at found
    split at found
    next blank =>
      obtain ⟨ending, rest, skipped, scanned, fairRest, remaining, length, places⟩ :=
        ih fair.tail found
      refine ⟨ending, rest, (line.text dialect).length + skipped, ?_, fairRest, remaining,
        by omega, ?_⟩
      · rw [text_cons, blank, List.nil_append,
          scanRecord_append dialect (terminators_ending line)]
        exact scanned
      · intro offset
        rw [starts_cons, if_pos blank, places, Nat.add_assoc]
    next written =>
      cases found
      have scanned := scanRecord_rowText proper fair.head written
        (closes_ending line (text dialect ⟨lines, last⟩))
      rw [stopAt_ending proper] at scanned
      have behind_length := length_text_behind dialect line ⟨lines, last⟩
      refine ⟨.terminator, behind line ⟨lines, last⟩, (rowText dialect line.fields).length + 1, ?_,
        fair.tail.behind line, records_behind dialect line _, by omega, ?_⟩
      · rw [text_cons]
        exact scanned
      · intro offset
        rw [starts_cons, if_neg written, List.tail_cons, ← Nat.add_assoc, starts_behind]

theorem scanRecord_of_records_cons {dialect : Dialect} (proper : dialect.Proper)
    {document : Document} (fair : document.Fair dialect) {first : List Spelled}
    {others : List (List Spelled)} (found : document.records dialect = first :: others) :
    ∃ ending rest, scanRecord dialect (document.text dialect) =
        some ⟨first.map Spelled.content, ending, text dialect rest⟩ ∧
      rest.Fair dialect ∧ rest.records dialect = others := by
  obtain ⟨ending, rest, _, scanned, fairRest, remaining, _⟩ := scanRecord_starts proper fair found
  exact ⟨ending, rest, scanned, fairRest, remaining⟩

end Document

end ResumableCsv.Record
