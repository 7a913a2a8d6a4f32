import ResumableCsv.Proofs.Backward.Batches

/-!
When the last batch of a file is finished. The search goes back over the rows without a cursor, so
it is the row in front of them that tells: a batch is finished when the last row carries the end
symbol, and also when rows of the same value were written behind such a row. Those are then open rows
of a finished batch.
-/

namespace ResumableCsv

/-- The rows of a file, the last of them first, end in these open rows of a value and, if there is
one, in this row in front of them. -/
structure Ends (columns : BatchColumns) (endSymbol value : String) (items : List (Except Error Row))
    (opened : List Row) (front : Option Row) : Prop where
  split : ∃ earlier, items = opened.map .ok ++ earlier ∧ earlier.head? = front.map .ok
  open_rows : ∀ row ∈ opened, row.Open columns value ∧ row.cell columns.cursor ≠ endSymbol

/-- The batch of such rows. -/
def batchOf (columns : BatchColumns) (endSymbol value : String) (opened : List Row)
    (front : Option Row) : Batch where
  value
  finished := (checkpoint columns endSymbol value front).1
  cursor := (checkpoint columns endSymbol value front).2
  rows := opened.reverse

variable {columns : BatchColumns} {endSymbol value : String} {items : List (Except Error Row)}
  {opened : List Row} {front : Option Row} {row : Row}

theorem Ends.nil : Ends columns endSymbol value [] [] none :=
  ⟨⟨[], rfl, rfl⟩, by simp⟩

theorem Ends.in_front : Ends columns endSymbol value (.ok row :: items) [] (some row) :=
  ⟨⟨.ok row :: items, rfl, rfl⟩, by simp⟩

theorem Ends.cons (ends : Ends columns endSymbol value items opened front)
    (here : row.Open columns value) (going : row.cell columns.cursor ≠ endSymbol) :
    Ends columns endSymbol value (.ok row :: items) (row :: opened) front := by
  obtain ⟨earlier, split, first⟩ := ends.split
  exact ⟨⟨earlier, by rw [split]; rfl, first⟩,
    List.forall_mem_cons.mpr ⟨⟨here, going⟩, ends.open_rows⟩⟩

/-- A batch is finished when the row in front of its open rows says so. -/
theorem finished_batchOf :
    (batchOf columns endSymbol value opened front).finished = true ↔
      ∃ row, front = some row ∧ row.cell columns.value = value ∧
        row.cell columns.cursor = endSymbol := by
  cases front with
  | none => simp [batchOf, checkpoint]
  | some row =>
    by_cases same : row.cell columns.value = value
    · by_cases ended : row.cell columns.cursor = endSymbol <;>
        simp [batchOf, checkpoint, same, ended]
    · simp [batchOf, checkpoint, same]

/-- The last row carries the end symbol just when the batch is finished and no row is open. -/
theorem Ends.last_iff {last : Row} (ends : Ends columns endSymbol value items opened front)
    (first : items.head? = some (.ok last)) (value_eq : last.cell columns.value = value) :
    last.cell columns.cursor = endSymbol ↔
      (batchOf columns endSymbol value opened front).finished = true ∧ opened = [] := by
  obtain ⟨earlier, split, next⟩ := ends.split
  rw [finished_batchOf]
  cases opened with
  | nil =>
    rw [split, List.map_nil, List.nil_append, next] at first
    obtain ⟨row, rfl, same⟩ := Option.map_eq_some_iff.mp first
    obtain rfl := Except.ok.inj same
    simp [value_eq]
  | cons row others =>
    rw [split] at first
    obtain rfl := Except.ok.inj (Option.some.inj first)
    simp [(ends.open_rows row (by simp)).2]

namespace BackwardReader

variable {reader : BackwardReader}

theorem scanBatch_of_error {error : Error} (failed : reader.nextRecord.1 = .error error)
    (batch : Option Batch) (start : Option Nat) :
    reader.scanBatch columns endSymbol batch start = .error error := by
  rw [scanBatch]
  split <;> simp_all

/-- The search passes the open rows at the end, and makes a batch of them with what the row in front
of them says. -/
theorem scanBatch_ends {collected : List Row} {start : Option Nat} {found : Batch × Option Nat}
    (scanned : reader.scanBatch columns endSymbol (some { value, rows := collected }) start =
      .ok (some found)) :
    ∃ opened front, Ends columns endSymbol value reader.rows opened front ∧
      found.1 = { batchOf columns endSymbol value opened front with
        rows := opened.reverse ++ collected } := by
  induction left : reader.tail.remaining using Nat.strongRecOn
    generalizing reader collected start with
  | ind count ih =>
    rcases step : reader.nextRecord with ⟨error | (_ | ⟨offset, row⟩), rest⟩
    · rw [scanBatch_of_error (by rw [step])] at scanned
      cases scanned
    · rw [scanBatch_of_end (by rw [step])] at scanned
      cases scanned
      refine ⟨[], none, ?_, rfl⟩
      rw [rows_of_nextRecord_none (by rw [step])]
      exact .nil
    · have fewer : rest.tail.remaining < count := by
        have less := remaining_nextRecord reader
        rw [step, left] at less
        exact less (by simp)
      rw [scanBatch_of_row step] at scanned
      rw [rows_of_nextRecord_some step]
      by_cases open_row : row.Open columns value ∧ row.cell columns.cursor ≠ endSymbol
      · obtain ⟨here, going⟩ := open_row
        have past : "" ≠ endSymbol := here.cursor_eq ▸ going
        simp only [Option.getD_some, here.value_eq, here.cursor_eq, if_neg past, ne_eq,
          not_true_eq_false, if_false] at scanned
        obtain ⟨opened, front, ends, made⟩ := ih _ fewer scanned rfl
        exact ⟨row :: opened, front, ends.cons here going, by rw [made]; simp [batchOf]⟩
      · refine ⟨[], some row, .in_front, ?_⟩
        -- the three reasons to stop are those that the row in front is asked for
        by_cases same : row.cell columns.value = value
        · by_cases ended : row.cell columns.cursor = endSymbol
          · simp only [Option.getD_some, same, ended, ne_eq, not_true_eq_false, if_false, if_true]
              at scanned
            cases scanned
            simp [batchOf, checkpoint, same, ended]
          · have held : row.cell columns.cursor ≠ "" := fun blank => open_row ⟨⟨same, blank⟩, ended⟩
            simp only [Option.getD_some, same, ended, held, ne_eq, not_true_eq_false,
              not_false_eq_true, if_false, if_true] at scanned
            cases scanned
            simp [batchOf, checkpoint, same, ended]
        · simp only [Option.getD_some, Ne.symm same, ne_eq, not_false_eq_true, if_true] at scanned
          cases scanned
          simp [batchOf, checkpoint, same]

/-- A batch that is found has the value of the last row. -/
theorem lastRow_of_scanBatch {found : Batch × Option Nat}
    (scanned : reader.scanBatch columns endSymbol none none = .ok (some found)) :
    ∃ last opened front, reader.rows.head? = some (.ok last) ∧
      Ends columns endSymbol (last.cell columns.value) reader.rows opened front ∧
      found.1 = batchOf columns endSymbol (last.cell columns.value) opened front := by
  rcases step : reader.nextRecord with ⟨error | (_ | ⟨offset, last⟩), rest⟩
  · rw [scanBatch_of_error (by rw [step])] at scanned
    cases scanned
  · rw [scanBatch_of_end (by rw [step])] at scanned
    cases scanned
  · rw [scanBatch_none step] at scanned
    obtain ⟨opened, front, ends, made⟩ := scanBatch_ends scanned
    refine ⟨last, opened, front, by rw [rows_of_nextRecord_some step]; rfl, ends, ?_⟩
    rw [made, List.append_nil]
    rfl

end BackwardReader

namespace BackwardOptions

variable {options : BackwardOptions} {path : String} {valueColumn cursorColumn : ColumnKey}
  {work : Workspace} {batch : Batch}

theorem scanBatch_of_lastBatch
    (found : options.lastBatch path valueColumn cursorColumn endSymbol work = .ok (some batch)) :
    ∃ reader value cursor start, options.openPath path work = .ok reader ∧
      reader.requiredColumn valueColumn = .ok value ∧
      reader.requiredColumn cursorColumn = .ok cursor ∧
      reader.scanBatch ⟨value, cursor⟩ endSymbol none none = .ok (some (batch, start)) := by
  obtain ⟨located, search, first⟩ := Outcome.map_eq_ok_iff.mp found
  obtain ⟨⟨_, start⟩, rfl, rfl⟩ := Option.map_eq_some_iff.mp first
  obtain ⟨filled, opened, search⟩ := Outcome.do_eq_ok_iff.mp search
  cases filled with
  | none => cases search
  | some reader =>
    obtain ⟨value, valueFound, search⟩ := Outcome.do_eq_ok_iff.mp search
    obtain ⟨cursor, cursorFound, scanned⟩ := Outcome.do_eq_ok_iff.mp search
    refine ⟨reader, value, cursor, start, ?_, valueFound, cursorFound, scanned⟩
    unfold openFilled at opened
    split at opened <;> cases opened
    assumption

/-- The last batch of a file has the value of the last row. Its rows are the open rows at the end of
the file, and it is finished just when the row in front of them is one of that value with the end
symbol. So the last row carries the end symbol just when the batch is finished and has no rows, and
a finished batch has rows when they stand behind such a row. -/
theorem finished_of_lastBatch
    (found : options.lastBatch path valueColumn cursorColumn endSymbol work = .ok (some batch)) :
    ∃ reader value cursor last earlier, options.openPath path work = .ok reader ∧
      reader.requiredColumn valueColumn = .ok value ∧
      reader.requiredColumn cursorColumn = .ok cursor ∧
      reader.rows.head? = some (.ok last) ∧ batch.value = last.cell value ∧
      reader.rows = batch.rows.reverse.map .ok ++ earlier ∧
      (∀ row ∈ batch.rows, row.Open ⟨value, cursor⟩ batch.value ∧ row.cell cursor ≠ endSymbol) ∧
      (batch.finished = true ↔ ∃ row, earlier.head? = some (.ok row) ∧
        row.cell value = batch.value ∧ row.cell cursor = endSymbol) ∧
      (last.cell cursor = endSymbol ↔ batch.finished = true ∧ batch.rows = []) := by
  obtain ⟨reader, value, cursor, start, opened, valueFound, cursorFound, scanned⟩ :=
    scanBatch_of_lastBatch found
  obtain ⟨last, open_rows, front, first, ends, made⟩ := BackwardReader.lastRow_of_scanBatch scanned
  obtain ⟨earlier, split, next⟩ := ends.split
  simp only at made
  subst made
  refine ⟨reader, value, cursor, last, earlier, opened, valueFound, cursorFound, first, rfl, ?_, ?_,
    ?_, ?_⟩
  · simpa [batchOf] using split
  · simpa [batchOf] using ends.open_rows
  · rw [finished_batchOf, next]
    simp [batchOf]
  · simpa [batchOf] using ends.last_iff first rfl

/-- A file whose last row carries the end symbol. -/
def closedFile : Workspace := { files := [("b.csv", Text.bytes "name,cursor\nann,\nann,end\n")] }

theorem finished_of_lastBatch_sample :
    lastBatch {} "b.csv" (.named "name") (.named "cursor") "end" closedFile =
        .ok (some { value := "ann", finished := true }) ∧
      ∃ reader cursor last, openPath {} "b.csv" closedFile = .ok reader ∧
        reader.requiredColumn (.named "cursor") = .ok cursor ∧
        reader.rows.head? = some (.ok last) ∧ last.cell cursor = "end" := by
  have found : lastBatch {} "b.csv" (.named "name") (.named "cursor") "end" closedFile =
      .ok (some { value := "ann", finished := true }) := by
    decide +kernel
  obtain ⟨reader, value, cursor, last, _, opened, _, cursorFound, first, _, _, _, _, ended⟩ :=
    finished_of_lastBatch found
  exact ⟨found, reader, cursor, last, opened, cursorFound, first, ended.mpr ⟨rfl, rfl⟩⟩

/-- A file with a row of the same value behind the one with the end symbol. -/
def reopenedFile : Workspace :=
  { files := [("b.csv", Text.bytes "name,cursor\nann,end\nann,\n")] }

/-- The last row has no end symbol and is open, and the batch is finished all the same. -/
theorem finished_of_lastBatch_ne :
    (openPath {} "b.csv" reopenedFile).map (fun reader => (reader.fieldnames, reader.rows)) =
        .ok (some ["name", "cursor"], [.ok ["ann", ""], .ok ["ann", "end"]]) ∧
      lastBatch {} "b.csv" (.named "name") (.named "cursor") "end" reopenedFile =
        .ok (some { value := "ann", finished := true, rows := [["ann", ""]] }) := by
  decide +kernel

end BackwardOptions

end ResumableCsv
