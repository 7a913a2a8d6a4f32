import Mathlib.Data.List.Basic
import ResumableCsv.Enrich.Write
import ResumableCsv.Proofs.Resume.Found
import ResumableCsv.Proofs.Resume.Output
import ResumableCsv.Proofs.Selection.Bounds

/-!
Resumable enrichments: what a plan says about the rows it is made for, how an output is opened anew
or continued, and what writing one row does to it.
-/

namespace ResumableCsv

/-- The selections of a reader are columns of its rows. -/
theorem Reader.Even.select_lt {reader : Reader} (even : reader.Even) {selection : String}
    {indices : List Nat} (found : reader.select selection = .ok indices) :
    ∀ index ∈ indices, index < reader.rowLength := by
  unfold Reader.select at found
  split at found
  next headers held =>
    obtain ⟨length, named⟩ := even.headed headers held
    rw [named] at found
    intro index member
    rw [← length]
    exact Headers.select_lt found index member
  next => exact Selection.selectPositions_lt found

theorem EnrichOptions.length_addedNames {options : EnrichOptions} {names : List String}
    {length : Nat} (found : options.addedNames true = .ok (names, length)) :
    names.length = length := by
  unfold addedNames at found
  cases added : options.added <;> rw [added] at found <;> cases found <;> rfl

/-- What a plan says of the rows it is made for. -/
structure EnrichPlan.Suits (plan : EnrichPlan) (reader : Reader) : Prop where
  inside : ∀ index ∈ plan.selected, index < reader.rowLength
  headed : plan.fieldnames.isSome = reader.headers.isSome
  length_eq : ∀ names ∈ plan.fieldnames, names.length = plan.outputLength

/-- The columns that are copied, all of them unless some were selected. -/
def EnrichOptions.selected (options : EnrichOptions) (reader : Reader) : Except Error (List Nat) :=
  match options.selection with
  | some selection => reader.select selection
  | none => .ok (List.range reader.rowLength)

theorem EnrichOptions.selected_lt {options : EnrichOptions} {reader : Reader} (even : reader.Even)
    {indices : List Nat} (chosen : options.selected reader = .ok indices) :
    ∀ index ∈ indices, index < reader.rowLength := by
  unfold selected at chosen
  split at chosen
  · exact even.select_lt chosen
  · cases chosen
    simp

/-- What a plan was made of: the columns that were selected, and for the header row their names, the
name of the column for marks, and the names of the added columns. -/
theorem EnrichOptions.layout_of_plan {options : EnrichOptions} {tracking : Tracking}
    {reader : Reader} (even : reader.Even) {plan : EnrichPlan}
    (planned : options.plan tracking reader = .ok plan) :
    plan.tracking = tracking ∧ options.selected reader = .ok plan.selected ∧
      ∃ added, options.addedNames reader.headers.isSome = .ok (added, plan.addedLength) ∧
        plan.fieldnames = reader.headers.map fun headers =>
          plan.selected.map (Row.cell headers.fieldnames) ++ tracking.columnName?.toList ++
            added := by
  have unfolded : (options.selected reader >>= fun selected =>
      options.addedNames reader.headers.isSome >>= fun added =>
        pure {
          tracking := tracking
          selected := selected
          addedLength := added.2
          fieldnames := reader.headers.map fun headers =>
            selected.filterMap (fun index => headers.fieldnames[index]?) ++
              tracking.columnName?.toList ++ added.1 }) = Except.ok plan := by
    rw [← planned]
    cases selection : options.selection with
    | none =>
      simp only [EnrichOptions.selected, EnrichOptions.plan, selection]
      rfl
    | some text => simp only [EnrichOptions.selected, EnrichOptions.plan, selection]
  obtain ⟨selected, chosen, unfolded⟩ := Outcome.do_eq_ok_iff.mp unfolded
  obtain ⟨⟨added, length⟩, named, unfolded⟩ := Outcome.do_eq_ok_iff.mp unfolded
  cases unfolded
  refine ⟨rfl, chosen, added, named, ?_⟩
  cases headed : reader.headers with
  | none => rfl
  | some headers =>
    have picked : (selected.filterMap fun index => headers.fieldnames[index]?) =
        selected.map (Row.cell headers.fieldnames) := by
      apply List.filterMap_eq_map_iff_forall_eq_some.mpr
      intro index member
      have bound : index < headers.fieldnames.length :=
        lt_of_lt_of_eq (selected_lt even chosen index member) (even.headed headers headed).1.symm
      simp [Row.cell, bound]
    simp only [Option.map_some, picked]

theorem EnrichOptions.suits_of_plan {options : EnrichOptions} {tracking : Tracking}
    {reader : Reader} (even : reader.Even) {plan : EnrichPlan}
    (planned : options.plan tracking reader = .ok plan) :
    plan.tracking = tracking ∧ plan.Suits reader := by
  obtain ⟨same, chosen, added, named, fieldnames⟩ := layout_of_plan even planned
  refine ⟨same, selected_lt even chosen, by simp [fieldnames], ?_⟩
  intro names member
  rw [fieldnames] at member
  obtain ⟨headers, headed, rfl⟩ := Option.map_eq_some_iff.mp member
  rw [headed] at named
  simp only [List.length_append, List.length_map, EnrichPlan.outputLength,
    EnrichPlan.trackingLength, length_addedNames named, same]

/-- The writer of a plan settles on the header row and the length of its rows. -/
theorem EnrichPlan.Suits.shape_eq {plan : EnrichPlan} {reader : Reader} (suits : plan.Suits reader)
    (options : EnrichOptions) (defaults : Defaults) :
    (options.writerOptions plan reader defaults).shape =
      .ok (plan.fieldnames, some plan.outputLength) := by
  refine Outcome.do_eq_ok_iff.mpr ⟨plan.fieldnames, ?_, ?_⟩
  · cases fieldnames : plan.fieldnames <;>
      simp [WriterOptions.header, EnrichOptions.writerOptions, fieldnames]
  · cases fieldnames : plan.fieldnames with
    | none =>
      simp only [EnrichOptions.writerOptions, fieldnames]
      rfl
    | some names =>
      simp only [EnrichOptions.writerOptions, fieldnames, ← suits.length_eq names fieldnames]
      rfl

/-- A row that has all the columns to be copied is copied cell by cell. -/
theorem EnrichPlan.copied_of_inside {plan : EnrichPlan} {row : Row}
    (inside : ∀ index ∈ plan.selected, index < row.length) (rowLength : Nat) :
    plan.copied rowLength row = .ok (plan.selected.map row.cell) := by
  have cells (indices : List Nat) (bound : ∀ index ∈ indices, index < row.length) :
      (indices.mapM fun index => row[index]?) = some (indices.map row.cell) := by
    induction indices with
    | nil => rfl
    | cons index rest ih =>
      have first := bound index (by simp)
      have later := ih fun other member => bound other (by simp [member])
      simp [later, first, Row.cell]
  simp [copied, cells plan.selected inside]

/-- An enrichment whose output can be continued: the input reads without error, the plan suits it,
NULs are kept, the output is a plain file, whose path is not the dash of the console, and what is
written there can be told from the marks of its dialect and from a byte-order mark. -/
structure Job where
  tracking : Tracking
  options : EnrichOptions
  defaults : Defaults
  reader : Reader
  rows : List Row
  plan : EnrichPlan
  output : ResumableOutput
  built : ∃ options source delimiter, Reader.build options source delimiter = .ok reader
  reads : reader.rows = rows.map .ok
  planned : options.plan tracking reader = .ok plan
  readsNuls : defaults.readNuls = .keep
  writesNuls : options.nuls.getD defaults.writeNuls = .keep
  named : Path.isConsole output.path = false
  apart : Dialect.Proper ⟨options.outputDelimiter reader, 0x22⟩
  wide : 0 < plan.outputLength
  unmarked : ∀ names ∈ plan.fieldnames, ∀ name ∈ names.head?, ¬Text.StartsWithMark name

namespace Job

variable (job : Job)

def path : String := job.output.path

def context : OutputContext := job.options.outputContext job.plan job.reader

/-- The header row of the output, if there is one. -/
def header : List Row := job.plan.fieldnames.toList

/-- The output once these rows are written. -/
def text (records : List Row) : Bytes := tableText job.context.dialect (job.header ++ records)

/-- The output row for an input row; `mark` is its index or cursor cell. -/
def record (row : Row) (mark : Option String) (added : Row) : Row :=
  job.plan.selected.map row.cell ++ mark.toList ++ added

def resume (resumer : Resumer) (work : Workspace) :
    Except (Error × Resumer) Enricher × Workspace :=
  job.options.openResumed job.tracking job.reader resumer job.defaults work

theorem text_append (records others : List Row) :
    job.text (records ++ others) = job.text records ++ tableText job.context.dialect others := by
  rw [text, text, ← List.append_assoc, tableText_append]

theorem plain : Workspace.Plain job.path := ⟨job.named, job.output.plain⟩

theorem even : job.reader.Even := by
  obtain ⟨options, source, delimiter, built⟩ := job.built
  exact Reader.even_of_build built

theorem tracking_eq : job.plan.tracking = job.tracking :=
  (EnrichOptions.suits_of_plan job.even job.planned).1

theorem suits : job.plan.Suits job.reader := (EnrichOptions.suits_of_plan job.even job.planned).2

theorem length_of_mem {row : Row} (member : row ∈ job.rows) :
    row.length = job.reader.rowLength := by
  apply job.even.rows
  rw [job.reads]
  exact List.mem_map.mpr ⟨row, member, rfl⟩

theorem copied_of_length {row : Row} (length : row.length = job.reader.rowLength) :
    job.plan.copied job.reader.rowLength row = .ok (job.plan.selected.map row.cell) := by
  apply EnrichPlan.copied_of_inside
  rw [length]
  exact job.suits.inside

theorem legible_header : Legible job.plan.outputLength job.header := by
  refine ⟨job.wide, ?_, ?_⟩
  · intro names member
    exact job.suits.length_eq names (Option.mem_toList.mp member)
  · intro names member
    have declared : names ∈ job.plan.fieldnames := by
      cases fieldnames : job.plan.fieldnames <;> simp [header, fieldnames] at member ⊢
      exact member
    exact job.unmarked names declared

/-- Output rows of the right length can be read back behind the header, and without one when their
first cell does not pass for a mark. -/
theorem legible_append {records : List Row}
    (even : ∀ row ∈ records, row.length = job.plan.outputLength)
    (unmarked : job.header = [] → ∀ row ∈ records.head?, ∀ cell ∈ row.head?,
      ¬Text.StartsWithMark cell) :
    Legible job.plan.outputLength (job.header ++ records) := by
  have header := job.legible_header
  refine ⟨header.positive, ?_, ?_⟩
  · intro row member
    rcases List.mem_append.mp member with first | later
    · exact header.even row first
    · exact even row later
  · cases fieldnames : job.header with
    | nil => exact unmarked fieldnames
    | cons names others =>
      have first := header.unmarked
      rw [fieldnames] at first
      exact first

theorem shape_eq :
    (job.options.writerOptions job.plan job.reader job.defaults).shape =
      .ok (job.plan.fieldnames, some job.plan.outputLength) :=
  job.suits.shape_eq job.options job.defaults

/-- An enricher of a job whose output has come to hold these rows. -/
structure Runs (enricher : Enricher) (work : Workspace) (records : List Row) : Prop where
  plan_eq : enricher.plan = job.plan
  rowLength_eq : enricher.reader.rowLength = job.reader.rowLength
  endSymbol_eq : enricher.endSymbol = job.options.endSymbol
  dialect_eq : enricher.writer.dialect = job.context.dialect
  fills : enricher.writer.Fills work job.path job.plan.outputLength (job.text records)

/-- An output passes the header check and is read back as the rows that were written. -/
theorem reads_back {records : List Row} (some_row : job.header ++ records ≠ [])
    (legible : Legible job.plan.outputLength (job.header ++ records)) {work : Workspace}
    (held : work.file? job.path = some (job.text records)) :
    job.context.checkHeader job.path job.defaults work = .ok () ∧
      ∃ reader, (job.context.readerOptions job.defaults).openPath job.path work = .ok reader ∧
        reader.rows = records.map .ok := by
  have finds : job.context.Finds job.path job.defaults work records :=
    OutputContext.finds_of_table job.readsNuls job.apart job.plain legible some_row held
  exact ⟨finds.checkHeader_eq, finds.openPath_eq⟩

/-- An enricher that has not read anything of its input yet. -/
structure Fresh (enricher : Enricher) (resumer : Resumer) : Prop where
  reader_eq : enricher.reader = job.reader
  resumer_eq : enricher.resumer = some resumer
  nextIndex_eq : enricher.nextIndex = 0

/-- A writer of a job only writes the header, and that only if it is told to. -/
theorem build_of_fills {sink : Sink} {work : Workspace} {content : Bytes}
    (filled : Output.Fills ⟨sink, .empty⟩ work job.path content) (withHeader : Bool) :
    ∃ writer opened,
      (job.options.writerOptions job.plan job.reader job.defaults).build sink withHeader work =
        .ok (writer, opened) ∧
      writer.dialect = job.context.dialect ∧
      writer.Fills opened job.path job.plan.outputLength
        (content ++ tableText job.context.dialect (if withHeader then job.header else [])) ∧
      (withHeader = false → opened = work ∧ writer.output = ⟨sink, .empty⟩) := by
  let start : Writer := (job.options.writerOptions job.plan job.reader job.defaults).start sink
    job.plan.fieldnames (some job.plan.outputLength)
  have fills : start.Fills work job.path job.plan.outputLength content :=
    ⟨rfl, job.writesNuls, filled⟩
  have shape := job.shape_eq
  cases fieldnames : job.plan.fieldnames with
  | none =>
    have nothing : tableText job.context.dialect (if withHeader then job.header else []) = [] := by
      cases withHeader <;> simp [header, fieldnames, tableText]
    rw [fieldnames] at shape
    refine ⟨_, work, WriterOptions.build_of_unheaded shape (by simp), rfl, ?_,
      fun _ => ⟨rfl, rfl⟩⟩
    rw [nothing, List.append_nil, ← fieldnames]
    exact fills
  | some names =>
    cases withHeader with
    | false =>
      refine ⟨_, work, WriterOptions.build_of_unheaded shape rfl, rfl, ?_, fun _ => ⟨rfl, rfl⟩⟩
      simpa [tableText] using fills
    | true =>
      obtain ⟨writer, opened, written, dialect, filled⟩ :=
        fills.emit (job.suits.length_eq names fieldnames)
      have announced : start.writeHeader work = (.ok (), writer, opened) := by
        rw [Writer.writeHeader, show start.fieldnames = some names from fieldnames]
        exact written
      rw [fieldnames] at shape
      refine ⟨writer, opened, ?_, dialect, ?_, fun unheaded => by cases unheaded⟩
      · rw [WriterOptions.build_of_headed shape rfl, ← fieldnames]
        simp only [start] at announced
        rw [announced]
      · have same : start.dialect = job.context.dialect := rfl
        simpa [header, fieldnames, tableText, same] using filled

variable {job}

/-- The enricher of a job with its writer and resumer, before it has taken in anything. -/
def enricher (job : Job) (writer : Writer) (resumer : Resumer) : Enricher :=
  { reader := job.reader
    writer := writer
    plan := job.plan
    endSymbol := job.options.endSymbol
    resumer := some resumer }

theorem resume_eq {resumer looked : Resumer} {work opened : Workspace} {writer : Writer}
    (resumed : (job.options.writerOptions job.plan job.reader job.defaults).resumeWith job.context
      resumer job.defaults work = (.ok writer, looked, opened)) :
    job.resume resumer work = (.ok (job.enricher writer looked), opened) := by
  simp only [resume, EnrichOptions.openResumed, job.planned]
  rw [← context, resumed]
  rfl

/-- Where nothing is yet, an output is made anew. -/
theorem resume_anew {resumer : Resumer} (same : resumer.output.path = job.path) {work : Workspace}
    (home : work.Home job.path) (nothing : work.size job.path = 0) :
    ∃ enricher opened, job.resume resumer work = (.ok enricher, opened) ∧
      job.Runs enricher opened [] ∧ job.Fresh enricher resumer := by
  obtain ⟨writer, opened, built, dialect, fills, _⟩ :=
    job.build_of_fills (Output.fills_of_holds (home.put_holds [])) true
  refine ⟨_, opened, resume_eq (WriterOptions.resumeWith_anew same home nothing built),
    ⟨rfl, rfl, rfl, dialect, ?_⟩, ⟨rfl, rfl, rfl⟩⟩
  simpa [text, enricher] using fills

/-- Where something is already, the output is continued behind its last line once the resumer has
looked at it. -/
theorem resume_behind_content {resumer looked : Resumer} (same : resumer.output.path = job.path)
    (still : looked.output.path = job.path) {work : Workspace} {content : Bytes}
    (filled : content ≠ []) (holds : work.Holds job.path content)
    (inspected : resumer.inspect job.context job.defaults work = (.ok (), looked)) :
    ∃ writer, job.resume resumer work =
        (.ok (job.enricher writer looked), work.endLine job.path content) ∧
      writer.dialect = job.context.dialect ∧ writer.output = ⟨.file job.path, .empty⟩ ∧
      writer.Fills (work.endLine job.path content) job.path job.plan.outputLength
        (Record.ended content) := by
  obtain ⟨writer, opened, built, dialect, fills, unheaded⟩ :=
    job.build_of_fills (Output.fills_of_holds holds.endLine) false
  obtain ⟨rfl, output⟩ := unheaded rfl
  exact ⟨writer,
    resume_eq (WriterOptions.resumeWith_behind same holds.held filled still inspected built),
    dialect, output, by simpa [tableText] using fills⟩

/-- Where rows are already, the output is continued behind them. -/
theorem resume_behind {resumer looked : Resumer} (same : resumer.output.path = job.path)
    (still : looked.output.path = job.path) {work : Workspace} {records : List Row}
    (some_row : job.header ++ records ≠ []) (holds : work.Holds job.path (job.text records))
    (inspected : resumer.inspect job.context job.defaults work = (.ok (), looked)) :
    ∃ enricher, job.resume resumer work = (.ok enricher, work) ∧
      job.Runs enricher work records ∧ job.Fresh enricher looked ∧
      enricher.writer.output = ⟨.file job.path, .empty⟩ := by
  have filled : job.text records ≠ [] := tableText_ne_nil _ some_row
  have ends : (job.text records).getLast? = some Record.lineFeed := getLast?_tableText _ some_row
  obtain ⟨writer, resumed, dialect, output, fills⟩ :=
    resume_behind_content same still filled holds inspected
  rw [Workspace.endLine_of_ended ends] at resumed fills
  rw [Record.ended, if_pos ends] at fills
  exact ⟨_, resumed, ⟨rfl, rfl, rfl, dialect, fills⟩, ⟨rfl, rfl, rfl⟩, output⟩

/-- Emitting a row is writing its output row. -/
theorem emit_eq {enricher : Enricher} (plan_eq : enricher.plan = job.plan)
    (rowLength_eq : enricher.reader.rowLength = job.reader.rowLength) {row : Row}
    (length : row.length = job.reader.rowLength) (mark : Option String) (added : Row)
    (work : Workspace) :
    enricher.emit row mark added work =
      ((enricher.writer.writeRow (job.record row mark added) work).1,
        { enricher with writer := (enricher.writer.writeRow (job.record row mark added) work).2.1 },
        (enricher.writer.writeRow (job.record row mark added) work).2.2) := by
  simp only [Enricher.emit, plan_eq, rowLength_eq, job.copied_of_length length]
  rfl

namespace Runs

variable {enricher : Enricher} {work : Workspace} {records : List Row} {row : Row}
  {mark : Option String} {added : Row}

/-- A row with as many cells as the output has columns comes to stand at its end. -/
theorem emit (runs : job.Runs enricher work records) (length : row.length = job.reader.rowLength)
    (fits : (job.record row mark added).length = job.plan.outputLength) :
    ∃ writer rest, enricher.emit row mark added work =
        (.ok (), { enricher with writer := writer }, rest) ∧
      job.Runs { enricher with writer := writer } rest
        (records ++ [job.record row mark added]) := by
  obtain ⟨writer, rest, written, dialect, filled⟩ := runs.fills.writeRow fits
  refine ⟨writer, rest, by rw [emit_eq runs.plan_eq runs.rowLength_eq length, written],
    runs.plan_eq, runs.rowLength_eq, runs.endSymbol_eq, dialect.trans runs.dialect_eq, ?_⟩
  rw [runs.dialect_eq] at filled
  rw [text, ← List.append_assoc, tableText_concat]
  exact filled

/-- Dropping the enricher leaves the rows in the file. -/
theorem close (runs : job.Runs enricher work records) :
    (enricher.close work).2.Holds job.path (job.text records) :=
  runs.fills.filled.close

end Runs

/-- A job on two rows of one column, with one column to add. -/
def sample (tracking : Tracking) : Job where
  tracking := tracking
  options := { added := .named ["note"] }
  defaults := {}
  reader :=
    { source := .listed [["bob"]]
      headers := some (.ofNames ["name"])
      rowLength := 1
      delimiter := Path.comma
      buffer := [["ann"]] }
  rows := [["ann"], ["bob"]]
  plan :=
    { tracking := tracking
      selected := [0]
      addedLength := 1
      fieldnames := some (["name"] ++ tracking.columnName?.toList ++ ["note"]) }
  output := { path := "out.csv", plain := ResumableOutput.sample_loose }
  built := ⟨{}, .listed [["name"], ["ann"], ["bob"]], Path.comma, rfl⟩
  reads := by
    rw [Reader.rows_of_next_some rfl, Reader.rows_of_next_some rfl, Reader.rows_of_next_none rfl]
    rfl
  planned := rfl
  readsNuls := rfl
  writesNuls := rfl
  named := ResumableOutput.sample_named
  apart := ⟨by decide, by decide, by decide⟩
  wide := by simp [EnrichPlan.outputLength]
  unmarked := by cases tracking <;> simp [Text.StartsWithMark]

/-- The output of the sample can be made where there are no files at all. -/
theorem sample_home (tracking : Tracking) : Workspace.Home {} (sample tracking).path :=
  ResumableOutput.sample_home

end Job

end ResumableCsv
