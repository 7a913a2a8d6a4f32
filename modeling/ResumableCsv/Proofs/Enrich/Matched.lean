import ResumableCsv.Proofs.Enrich.Counted
import ResumableCsv.Proofs.Enrich.Cuts

/-!
Runs that look for the last cell of one copied column among the input rows: where that column tells
the input rows apart, they go on behind the same row as runs that count.
-/

namespace ResumableCsv

namespace Enricher

variable {enricher later : Enricher} {work rest : Workspace}

/-- Only what comes next matters. -/
theorem pull_congr (same : enricher.next work = later.next rest) :
    (enricher.pull none work).1 = (later.pull none rest).1 := by
  match step : later.next rest with
  | (none, last) => rw [pull_of_next_none (by rw [same, step]), pull_of_next_none (by rw [step])]
  | (some item, last, lastWork) =>
    rw [pull_of_next_some (same.trans step), pull_of_next_some step]

/-- Every row that is not done is offered, and then there is nothing to object to. -/
theorem Awaits.pull {done : Nat → Bool} {remaining : List Row}
    (awaits : enricher.Awaits done remaining) (work : Workspace) :
    (enricher.pull none work).1 = (offers done enricher.nextIndex remaining).map .ok := by
  induction due : offers done enricher.nextIndex remaining generalizing enricher remaining with
  | nil =>
    obtain ⟨later, left, step, _⟩ := awaits.next work
    rw [due] at step
    exact pull_of_next_none (by rw [step]; rfl)
  | cons offer others ih =>
    obtain ⟨later, left, step, awaiting, offered, _⟩ := awaits.next work
    rw [due] at step offered
    rw [pull_of_next_some step, ih awaiting offered]
    rfl

/-- These rows are still to come, and the row with the last cell is not one of them. -/
structure Passed (enricher : Enricher) (remaining : List Row) : Prop where
  rows_eq : enricher.reader.rows = remaining.map .ok
  reached : ∃ resumer, enricher.resumer = some (.cellMatch resumer) ∧ resumer.reached = true

/-- These rows are still to come, and the one with this cell is looked for. -/
structure Seeks (enricher : Enricher) (input : Nat) (cell : String) (remaining : List Row) :
    Prop where
  rows_eq : enricher.reader.rows = remaining.map .ok
  searching : ∃ resumer, enricher.resumer = some (.cellMatch resumer) ∧ resumer.reached = false ∧
    resumer.inputColumn = input ∧ resumer.lastCell = some cell

theorem Passed.pull {remaining : List Row} (passed : enricher.Passed remaining)
    (work : Workspace) :
    (enricher.pull none work).1 =
      ((remaining.zipIdx enricher.nextIndex).map fun (row, index) => .ok ⟨index, row, none⟩) := by
  obtain ⟨resumer, held, reached⟩ := passed.reached
  induction remaining generalizing enricher with
  | nil =>
    match step : enricher.reader.next with
    | (some item, rest) =>
      have ended := Reader.next_of_rows_nil passed.rows_eq
      rw [step] at ended
      cases ended
    | (none, rest) =>
      apply pull_of_next_none
      rw [next_of_end step]
      simp [objection, held, Resumer.finish, CellMatchResumer.finish, reached]
  | cons row remaining ih =>
    obtain ⟨rest, step, after⟩ := Reader.next_of_rows_cons passed.rows_eq
    have offered := next_of_row step work
    simp only [held, decide, Resumer.filter, CellMatchResumer.filter, reached, if_true,
      Resumer.verdict, Bool.false_eq_true, if_false] at offered
    rw [pull_of_next_some offered, ih ⟨after, resumer, rfl, reached⟩ rfl]
    rfl

/-- The rows up to the one with the cell are passed over. -/
theorem Seeks.reach {input : Nat} {cell : String} {before : List Row} {row : Row}
    {remaining : List Row} (seeks : enricher.Seeks input cell (before ++ row :: remaining))
    (other : ∀ one ∈ before, one[input]? ≠ some cell) (here : row[input]? = some cell)
    (work : Workspace) :
    ∃ later : Enricher, enricher.next work = later.next work ∧ later.Passed remaining ∧
      later.nextIndex = enricher.nextIndex + before.length + 1 := by
  induction before generalizing enricher with
  | nil =>
    obtain ⟨resumer, held, searching, column, last⟩ := seeks.searching
    obtain ⟨rest, step, after⟩ := Reader.next_of_rows_cons seeks.rows_eq
    have skipped := next_of_row step work
    simp only [held, decide, Resumer.filter, CellMatchResumer.filter, searching, column, last, here,
      Bool.false_eq_true, if_false, Resumer.verdict, if_true] at skipped
    exact ⟨_, skipped, ⟨after, _, rfl, by simp⟩, rfl⟩
  | cons first before ih =>
    obtain ⟨resumer, held, searching, column, last⟩ := seeks.searching
    obtain ⟨rest, step, after⟩ := Reader.next_of_rows_cons seeks.rows_eq
    have apart : (first[input]? == some cell) = false := by simpa using other first (by simp)
    have skipped := next_of_row step work
    simp only [held, decide, Resumer.filter, CellMatchResumer.filter, searching, column, last,
      apart, Bool.false_eq_true, if_false, Resumer.verdict, if_true] at skipped
    have seeking : Seeks
        { enricher with
          reader := rest
          nextIndex := enricher.nextIndex + 1
          resumer := some (.cellMatch
            { resumer with
              reached := false
              output := resumer.output.tell .inputRowSkipped first }) }
        input cell (before ++ row :: remaining) := ⟨after, _, rfl, rfl, column, last⟩
    obtain ⟨later, same, passed, index⟩ := ih seeking fun one member => other one (by simp [member])
    refine ⟨later, ?_, passed, ?_⟩
    · rw [skipped, ← same]
      simp only [column, last]
    · simp only [index, List.length_cons]
      omega

end Enricher

namespace Job

variable (job : Job)

def matchResumer (key : ColumnKey) : Resumer := .cellMatch { output := job.output, column := key }

/-- A copied column tells the input rows apart, and its cells come back from the output as they
are. -/
structure Keyed (key : ColumnKey) (column input : Nat) (added : Nat → Row → Row) : Prop where
  plain : job.tracking = .plain
  resolved : job.context.outputColumn key = .ok column
  copied : job.plan.selected[column]? = some input
  distinct : (job.rows.map (·.cell input)).Nodup
  unbroken : ∀ row ∈ job.rows, ¬crlf <:+: Text.bytes (row.cell input)
  unmarked_cells : ∀ row ∈ job.rows, ∀ index ∈ job.plan.selected.head?,
    ¬Text.StartsWithMark (row.cell index)
  sized : ∀ index row, job.rows[index]? = some row →
    (added index row).length = job.plan.addedLength

/-- The rows of the output behind its header row are those that come from its end. -/
theorem dataRows_eq {first : Row} {rows records : List Row}
    (table : job.header ++ records = first :: rows) :
    (job.context.backwardOptions job.defaults).dataRows first rows = records := by
  cases fieldnames : job.plan.fieldnames with
  | none =>
    have same : records = first :: rows := by simpa [header, fieldnames] using table
    simp [BackwardOptions.dataRows, OutputContext.backwardOptions, OutputContext.hasHeaders,
      context, EnrichOptions.outputContext, fieldnames, same]
  | some names =>
    have same : records = rows := by
      rw [header, fieldnames] at table
      exact (List.cons.inj table).2
    simp [BackwardOptions.dataRows, OutputContext.backwardOptions, OutputContext.hasHeaders,
      context, EnrichOptions.outputContext, fieldnames, same]

theorem rest_of_split {before after : List Row} {row : Row}
    (split : job.rows = before ++ row :: after) :
    job.rest (before.length + 1) =
      (after.zipIdx (before.length + 1)).map fun (row, index) => ⟨index, row, none⟩ := by
  have drop : job.rows.zipIdx.drop (before.length + 1) = after.zipIdx (before.length + 1) := by
    rw [split, List.zipIdx_append, List.drop_append]
    simp
  rw [rest, drop]

namespace Keyed

variable {job} {key : ColumnKey} {column input : Nat} {added : Nat → Row → Row}
  (keyed : job.Keyed key column input added) {work : Workspace}

include keyed

theorem head?_record {row : Row} (member : row ∈ job.rows) (extra : Row) :
    ∀ cell ∈ (job.record row none extra).head?, ¬Text.StartsWithMark cell := by
  have first := keyed.unmarked_cells row member
  cases selected : job.plan.selected with
  | nil =>
    have copied := keyed.copied
    simp [selected] at copied
  | cons index others =>
    rw [selected] at first
    simpa [record, selected] using first index rfl

theorem expects : job.Expects added := by
  refine ⟨keyed.plain, keyed.sized, ?_⟩
  intro _ row leading
  obtain ⟨⟨origin, index⟩, there, rfl⟩ := List.mem_map.mp (List.mem_of_head? leading)
  have found := List.mem_zipIdx_iff_getElem?.mp there
  exact keyed.head?_record (List.mem_of_getElem? found) (added index origin)

theorem inside : column < job.plan.outputLength := by
  have bound := (List.getElem?_eq_some_iff.mp keyed.copied).1
  rw [EnrichPlan.outputLength]
  omega

theorem getElem?_input {row : Row} (member : row ∈ job.rows) :
    row[input]? = some (row.cell input) := by
  have within : input < row.length := by
    rw [job.length_of_mem member]
    exact job.suits.inside input (List.mem_of_getElem? keyed.copied)
  rw [Row.cell, List.getElem?_eq_getElem within, Option.getD_some]

section

variable {count : Nat} (some_row : job.header ++ (job.outputs added).take count ≠ [])
  (held : work.file? job.path = some (job.text ((job.outputs added).take count)))

include some_row held

/-- A resumer that looks at the output looks for the last cell of the column. -/
theorem inspect_eq {cell : Option String}
    (found : (job.context.backwardOptions job.defaults).lastCell job.path (.position column) work =
      .ok cell) :
    (job.matchResumer key).inspect job.context job.defaults work =
      (.ok (), .cellMatch
        { output := job.output
          column := key
          lastCell := cell
          inputColumn := input
          reached := cell.isNone }) := by
  obtain ⟨checked, _⟩ := job.reads_back some_row (keyed.expects.legible count) held
  have inputColumn : job.context.inputColumn column = .ok input := by
    simp [OutputContext.inputColumn, context, EnrichOptions.outputContext, keyed.copied]
  have here : job.output.path = job.path := rfl
  simp only [matchResumer, Resumer.inspect, CellMatchResumer.inspect, here, checked, keyed.resolved,
    inputColumn, Outcome.ok_bind, pure, Except.pure, found]

theorem lastCell_eq (inside : count ≤ job.rows.length) :
    (job.context.backwardOptions job.defaults).lastCell job.path (.position column) work =
      .ok ((job.rows.take count).getLast?.map (·.cell input)) := by
  have plain : (job.context.backwardOptions job.defaults).Plain job.context.dialect :=
    ⟨job.readsNuls, rfl, rfl, rfl⟩
  obtain ⟨first, rows, table⟩ := List.exists_cons_of_ne_nil some_row
  have legible := keyed.expects.legible count
  have behind := job.dataRows_eq table
  rw [table] at legible
  rw [text, table] at held
  cases count with
  | zero =>
    rw [BackwardOptions.lastCell_of_table_nil plain job.apart legible job.plain held keyed.inside
      behind]
    rfl
  | succ index =>
    have found : job.rows[index]? = some job.rows[index] := List.getElem?_eq_getElem inside
    have last : (job.outputs added).take (index + 1) = (job.outputs added).take index ++
        [job.record job.rows[index] none (added index job.rows[index])] := by
      rw [List.take_add_one, outputs, List.getElem?_map, List.getElem?_zipIdx, found]
      simp
    rw [last] at behind
    have member : job.rows[index] ∈ job.rows := List.getElem_mem inside
    obtain ⟨folded, folds, seen⟩ := BackwardOptions.lastCell_of_table plain job.apart legible
      job.plain held keyed.inside behind (keyed.head?_record member _)
    have same := cell_value keyed.copied job.rows[index] none (added index job.rows[index])
    have cell : folded.cell column = job.rows[index].cell input :=
      (folds.cell_eq (by rw [same]; exact keyed.unbroken _ member)).trans same
    rw [seen, cell, ← List.take_append_getElem inside, List.getLast?_concat]
    rfl

end

/-- The row with a cell of the column is not among the rows in front of it. -/
theorem other_cell {before after : List Row} {row : Row}
    (split : job.rows = before ++ row :: after) :
    ∀ one ∈ before, one[input]? ≠ some (row.cell input) := by
  intro one member same
  rw [keyed.getElem?_input (by simp [split, member])] at same
  have distinct := keyed.distinct
  rw [split, List.map_append, List.nodup_append] at distinct
  exact distinct.2.2 _ (List.mem_map_of_mem member) _ (by simp) (Option.some.inj same)

/-- A run begins with the last cell of the column, if there are rows in the output. -/
theorem begin {count : Nat} (inside : count ≤ job.rows.length)
    (holds : work.Holds job.path (job.text ((job.outputs added).take count))) :
    ∃ enricher opened resumer, job.resume (job.matchResumer key) work = (.ok enricher, opened) ∧
      job.Fresh enricher (.cellMatch resumer) ∧
      resumer.lastCell = (job.rows.take count).getLast?.map (·.cell input) ∧
      resumer.reached = resumer.lastCell.isNone ∧
      (resumer.reached = false → resumer.inputColumn = input) := by
  by_cases nothing : job.header ++ (job.outputs added).take count = []
  · have empty : work.size job.path = 0 := by
      simp [Workspace.size, holds.held, text, nothing, tableText]
    have none_yet : job.rows.take count = [] := by
      have length := congrArg List.length (List.append_eq_nil_iff.mp nothing).2
      rw [List.length_take, length_outputs, List.length_nil] at length
      rw [← List.length_eq_zero_iff, List.length_take, length]
    obtain ⟨enricher, opened, resumed, _, fresh⟩ :=
      resume_anew (show (job.matchResumer key).output.path = job.path from rfl) holds.home empty
    exact ⟨enricher, opened, _, resumed, fresh, by rw [none_yet]; rfl, rfl,
      fun other => by cases other⟩
  · have inspected := keyed.inspect_eq nothing holds.held
      (keyed.lastCell_eq nothing holds.held inside)
    obtain ⟨enricher, resumed, _, fresh, _⟩ :=
      resume_behind (show (job.matchResumer key).output.path = job.path from rfl) rfl nothing holds
        inspected
    exact ⟨enricher, work, _, resumed, fresh, rfl, rfl, fun _ => rfl⟩

end Keyed

/-- Behind the output rows of the first input rows, whatever their number, a run that looks for the
last cell is offered the other input rows and nothing is objected to, just as in a run that
counts. The output path is that of a file, not the dash of the console. -/
theorem matched_runs_as_counted (job : Job) {key : ColumnKey} {column input : Nat}
    {added : Nat → Row → Row} (keyed : job.Keyed key column input added) {count : Nat}
    (inside : count ≤ job.rows.length) {work : Workspace}
    (holds : work.Holds job.path (job.text ((job.outputs added).take count))) :
    (∃ enricher opened, job.resume (job.matchResumer key) work = (.ok enricher, opened) ∧
      (enricher.pull none opened).1 = (job.rest count).map .ok) ∧
    ∃ enricher opened, job.resume job.countedResumer work = (.ok enricher, opened) ∧
      (enricher.pull none opened).1 = (job.rest count).map .ok := by
  constructor
  · obtain ⟨enricher, opened, resumer, resumed, fresh, last, reached, column⟩ :=
      keyed.begin inside holds
    refine ⟨enricher, opened, resumed, ?_⟩
    rw [last] at reached
    -- Without output rows there is nothing to look for; else the last of them tells where to stop.
    cases count with
    | zero =>
      have passed : enricher.Passed job.rows :=
        ⟨by rw [fresh.reader_eq, job.reads], resumer, fresh.resumer_eq, reached⟩
      rw [passed.pull, fresh.nextIndex_eq]
      simp [rest]
    | succ index =>
      rw [← List.take_append_getElem inside, List.getLast?_concat] at last reached
      have split : job.rows =
          job.rows.take index ++ job.rows[index] :: job.rows.drop (index + 1) := by
        rw [← List.drop_eq_getElem_cons inside, List.take_append_drop]
      have length : (job.rows.take index).length = index := by
        rw [List.length_take]
        omega
      have seeks : enricher.Seeks input (job.rows[index].cell input)
          (job.rows.take index ++ job.rows[index] :: job.rows.drop (index + 1)) :=
        ⟨by rw [fresh.reader_eq, job.reads, ← split], resumer, fresh.resumer_eq, reached,
          column reached, last⟩
      have here := keyed.getElem?_input (List.getElem_mem inside)
      obtain ⟨later, same, passed, position⟩ :=
        seeks.reach (keyed.other_cell split) here opened
      have due := job.rest_of_split split
      rw [length] at due
      rw [Enricher.pull_congr same, passed.pull, position, fresh.nextIndex_eq, length, Nat.zero_add,
        due, List.map_map]
      rfl
  · obtain ⟨enricher, opened, resumed, sound⟩ := keyed.expects.begin inside (.written holds)
    obtain ⟨left, awaits, due⟩ := sound.awaits
    refine ⟨enricher, opened, resumed, ?_⟩
    rw [awaits.pull, ← job.offers_eq_rest, ← due]
    rfl

theorem matched_runs_as_counted_sample :
    ∃ work enricher opened,
      (sample .plain).resume ((sample .plain).matchResumer (.position 0)) work =
        (.ok enricher, opened) ∧
      (enricher.pull none opened).1 = [.ok ⟨1, ["bob"], none⟩] := by
  have keyed : (sample .plain).Keyed (.position 0) 0 0 fun _ _ => ["new"] :=
    ⟨rfl, by rfl, rfl, by decide, by decide, by simp [sample, Text.StartsWithMark, Row.cell],
      fun _ _ _ => rfl⟩
  obtain ⟨⟨enricher, opened, resumed, offered⟩, _⟩ :=
    matched_runs_as_counted (sample .plain) keyed (show 1 ≤ 2 by decide)
      ((sample_home .plain).put_holds _)
  exact ⟨_, enricher, opened, resumed, offered⟩

end Job

end ResumableCsv
