import ResumableCsv.Backward.LastBatch
import ResumableCsv.Proofs.Backward.Table

/-!
The last batch of a written table: the open rows at its end, and the row in front of them that tells
whether their value had reached a checkpoint.
-/

namespace ResumableCsv

/-- A row of a batch that no checkpoint closes. -/
structure Row.Open (columns : BatchColumns) (value : String) (row : Row) : Prop where
  value_eq : row.cell columns.value = value
  cursor_eq : row.cell columns.cursor = ""

/-- The cells that tell batches apart come out as they were written. -/
structure Row.Telling (columns : BatchColumns) (row : Row) : Prop where
  value_unbroken : ¬crlf <:+: Text.bytes (row.cell columns.value)
  cursor_unbroken : ¬crlf <:+: Text.bytes (row.cell columns.cursor)

/-- What the row in front of a batch says of it: whether it is finished, and how far it came. -/
def checkpoint (columns : BatchColumns) (endSymbol value : String) (last : Option Row) :
    Bool × Option String :=
  match last with
  | none => (false, none)
  | some row =>
    if row.cell columns.value ≠ value then (false, none)
    else if row.cell columns.cursor = endSymbol then (true, none)
    else (false, some (row.cell columns.cursor))

namespace BackwardReader

variable {reader rest : BackwardReader} {columns : BatchColumns} {endSymbol : String}
  {dialect : Dialect} {floor offset : Nat} {before opened : List Row} {row : Row}

theorem scanBatch_of_end (ended : reader.nextRecord.1 = .ok none) (batch : Option Batch)
    (start : Option Nat) :
    reader.scanBatch columns endSymbol batch start =
      .ok (batch.map fun batch => (batch, start)) := by
  rw [scanBatch]
  split <;> simp_all

theorem scanBatch_of_row (step : reader.nextRecord = (.ok (some (offset, row)), rest))
    (batch : Option Batch) (start : Option Nat) :
    reader.scanBatch columns endSymbol batch start =
      let batch := batch.getD { value := row.cell columns.value }
      let cursor := row.cell columns.cursor
      if batch.value ≠ row.cell columns.value then .ok (some (batch, start))
      else if cursor = endSymbol then .ok (some ({ batch with finished := true }, start))
      else if cursor ≠ "" then .ok (some ({ batch with cursor := some cursor }, start))
      else
        rest.scanBatch columns endSymbol (some { batch with rows := row :: batch.rows })
          (some offset) := by
  rw [scanBatch]
  split
  next other => simp_all
  next other => simp_all
  next other =>
    rw [step] at other
    cases other
    rfl

/-- Open rows are collected, and the offset of the first of them is kept. -/
theorem scanBatch_of_open (symbol : endSymbol ≠ "") {value : String}
    (rests : reader.Rests dialect floor (before ++ opened)) (clear : ∀ row ∈ opened, row.Clear)
    (telling : ∀ row ∈ opened, row.Telling columns) (same : ∀ row ∈ opened, row.Open columns value)
    (collected : List Row) (start : Option Nat) :
    ∃ (folded : List Row) (left : BackwardReader),
      reader.scanBatch columns endSymbol (some { value, rows := collected }) start =
        left.scanBatch columns endSymbol (some { value, rows := folded ++ collected })
          (if opened = [] then start else some (floor + (tableText dialect before).length)) ∧
      left.Rests dialect floor before ∧ (opened = [] → folded = []) := by
  induction opened using List.reverseRecOn generalizing reader collected start with
  | nil => exact ⟨[], reader, by simp, by simpa using rests, fun _ => rfl⟩
  | append_singleton opened last ih =>
    rw [← List.append_assoc] at rests
    obtain ⟨folded, left, step, folds, later⟩ := rests.nextRecord_concat (clear last (by simp))
    have known := telling last (by simp)
    have here := same last (by simp)
    have value_eq : folded.cell columns.value = value :=
      (folds.cell_eq known.value_unbroken).trans here.value_eq
    have cursor_eq : folded.cell columns.cursor = "" :=
      (folds.cell_eq known.cursor_unbroken).trans here.cursor_eq
    obtain ⟨others, final, scanned, resting, _⟩ := ih later
      (fun row member => clear row (by simp [member]))
      (fun row member => telling row (by simp [member]))
      (fun row member => same row (by simp [member])) (folded :: collected)
      (some (floor + (tableText dialect (before ++ opened)).length))
    refine ⟨others ++ [folded], final, ?_, resting, by simp⟩
    have passed : reader.scanBatch columns endSymbol (some { value, rows := collected }) start =
        left.scanBatch columns endSymbol (some { value, rows := folded :: collected })
          (some (floor + (tableText dialect (before ++ opened)).length)) := by
      rw [scanBatch_of_row step]
      simp [value_eq, cursor_eq, Ne.symm symbol]
    rw [passed, scanned]
    by_cases nothing : opened = []
    · simp [nothing]
    · simp [nothing]

/-- In front of the open rows the search stops, with what the row there says. -/
theorem scanBatch_of_checkpoint {value : String} (rests : reader.Rests dialect floor before)
    (clear : ∀ row ∈ before.getLast?, row.Clear)
    (telling : ∀ row ∈ before.getLast?, row.Telling columns)
    (closed : ∀ row ∈ before.getLast?, row.cell columns.value = value →
      row.cell columns.cursor ≠ "") (collected : List Row) (start : Option Nat) :
    reader.scanBatch columns endSymbol (some { value, rows := collected }) start =
      .ok (some ({
        value
        finished := (checkpoint columns endSymbol value before.getLast?).1
        cursor := (checkpoint columns endSymbol value before.getLast?).2
        rows := collected }, start)) := by
  rcases List.eq_nil_or_concat before with rfl | ⟨init, last, rfl⟩
  · rw [scanBatch_of_end rests.nextRecord_nil]
    rfl
  · rw [List.concat_eq_append] at rests clear telling closed ⊢
    rw [List.getLast?_concat] at clear telling closed ⊢
    obtain ⟨folded, left, step, folds, _⟩ := rests.nextRecord_concat (clear last rfl)
    have known := telling last rfl
    have cursor_some := closed last rfl
    rw [scanBatch_of_row step, folds.cell_eq known.value_unbroken,
      folds.cell_eq known.cursor_unbroken]
    by_cases other : last.cell columns.value = value
    · by_cases ended : last.cell columns.cursor = endSymbol
      · simp [checkpoint, other, ended]
      · simp [checkpoint, other, ended, cursor_some other]
    · simp [checkpoint, other, Ne.symm other]

/-- The last row fixes the value of the batch. -/
theorem scanBatch_none (step : reader.nextRecord = (.ok (some (offset, row)), rest))
    (start : Option Nat) :
    reader.scanBatch columns endSymbol none start =
      reader.scanBatch columns endSymbol (some { value := row.cell columns.value }) start := by
  rw [scanBatch_of_row step, scanBatch_of_row step]
  rfl

/-- The last batch is made up of the open rows at the end, and the offset is where they start. -/
theorem scanBatch_of_table (symbol : endSymbol ≠ "") {value : String}
    (rests : reader.Rests dialect floor (before ++ opened)) (some_row : before ++ opened ≠ [])
    (clear : ∀ row ∈ before ++ opened, row.Clear)
    (telling : ∀ row ∈ before ++ opened, row.Telling columns)
    (last : ∀ row ∈ (before ++ opened).getLast?, row.cell columns.value = value)
    (same : ∀ row ∈ opened, row.Open columns value)
    (closed : ∀ row ∈ before.getLast?, row.cell columns.value = value →
      row.cell columns.cursor ≠ "") :
    ∃ folded, reader.scanBatch columns endSymbol none none =
        .ok (some ({
          value
          finished := (checkpoint columns endSymbol value before.getLast?).1
          cursor := (checkpoint columns endSymbol value before.getLast?).2
          rows := folded },
          if opened = [] then none else some (floor + (tableText dialect before).length))) ∧
      (opened = [] → folded = []) := by
  obtain ⟨init, final, whole⟩ := (List.eq_nil_or_concat _).resolve_left some_row
  have started : reader.scanBatch columns endSymbol none none =
      reader.scanBatch columns endSymbol (some { value, rows := [] }) none := by
    rw [List.concat_eq_append] at whole
    have resting := rests
    rw [whole] at resting clear telling last
    obtain ⟨folded, left, step, folds, _⟩ := resting.nextRecord_concat (clear final (by simp))
    rw [scanBatch_none step,
      folds.cell_eq (telling final (by simp)).value_unbroken, last final (by simp)]
  obtain ⟨folded, left, collected, resting, nothing⟩ := scanBatch_of_open symbol rests
    (fun row member => clear row (by simp [member]))
    (fun row member => telling row (by simp [member])) same [] none
  rw [List.append_nil] at collected
  refine ⟨folded, ?_, nothing⟩
  rw [started, collected]
  exact scanBatch_of_checkpoint resting
    (fun row member => clear row (by simp [List.mem_of_getLast? member]))
    (fun row member => telling row (by simp [List.mem_of_getLast? member])) closed folded _

end BackwardReader

end ResumableCsv
