import ResumableCsv.Proofs.Enrich.Cuts
import ResumableCsv.Proofs.Enrich.Session

/-!
Paginated enrichments that were cut short anywhere between two output rows: the input rows in front
of the interrupted one are passed over, the rows behind its last checkpoint are cut off, and the
pages that are still due complete the output to what it would have been.
-/

namespace ResumableCsv.Job

variable (job : Job)

/-- An enricher with some output that has these input rows still to come. -/
structure Works (enricher : Enricher) (work : Workspace) (records earlier left : List Row) :
    Prop where
  runs : job.Runs enricher work records
  rows_eq : enricher.reader.rows = left.map .ok
  split : job.rows = earlier ++ left
  index_eq : enricher.nextIndex = earlier.length

/-- A resumer that has nothing to continue. -/
def Idle (enricher : Enricher) : Prop :=
  ∃ resumer, enricher.resumer = some (.batch resumer) ∧ resumer.searching = false

variable {job} {key : ColumnKey} {value input : Nat} {pages : Nat → Row → List Page}
  {enricher : Enricher} {work : Workspace} {records earlier left : List Row} {row : Row}

theorem Runs.of_alike {other : Enricher} (runs : job.Runs enricher work records)
    (alike : enricher.Alike other) : job.Runs other work records := by
  refine ⟨alike.plan_eq.trans runs.plan_eq, alike.rowLength_eq.trans runs.rowLength_eq,
    alike.endSymbol_eq.trans runs.endSymbol_eq, ?_, ?_⟩ <;> rw [alike.writer_eq]
  · exact runs.dialect_eq
  · exact runs.fills

/-- The reader of an enricher that works hands out the next row. -/
theorem Works.step (works : job.Works enricher work records earlier (row :: left)) :
    ∃ rest, enricher.reader.next = (some (.ok row), rest) ∧
      ∀ resumer, job.Works
        { enricher with reader := rest, nextIndex := enricher.nextIndex + 1, resumer := resumer }
        work records (earlier ++ [row]) left := by
  obtain ⟨rest, step, after⟩ := Reader.next_of_rows_cons works.rows_eq
  refine ⟨rest, step, fun resumer => ⟨?_, after, by simp [works.split], by simp [works.index_eq]⟩⟩
  exact works.runs.of_alike ⟨rfl, rfl, rfl, Enricher.rowLength_of_next step⟩

theorem Works.writePages (works : job.Works enricher work records (earlier ++ [row]) left)
    (paged : job.tracking = .paged) {due : List Page}
    (sized : ∀ page ∈ due, ∀ added ∈ page.addenda, added.length = job.plan.addedLength) :
    ∃ writer rest, enricher.writePages row due work =
        (.ok (), { enricher with writer := writer }, rest) ∧
      job.Works { enricher with writer := writer } rest (records ++ job.rowRecords row due)
        (earlier ++ [row]) left := by
  have length : row.length = job.reader.rowLength := job.length_of_mem (by simp [works.split])
  obtain ⟨writer, rest, written, runs⟩ := works.runs.writePages paged length sized
  exact ⟨writer, rest, written, runs, works.rows_eq, works.split, works.index_eq⟩

/-- Without anything to continue, the pages of all rows to come are written. -/
theorem Works.writeOffers (paginates : job.Paginates key value input pages)
    (works : job.Works enricher work records earlier left) (idle : Idle enricher) :
    ∃ last lastWork, enricher.writeOffers pages work = (.ok (), last, lastWork) ∧
      job.Runs last lastWork (records ++ job.recordsFrom pages earlier.length left) := by
  obtain ⟨resumer, held, found⟩ := idle
  induction left generalizing enricher work records earlier with
  | nil =>
    match step : enricher.reader.next with
    | (some item, rest) =>
      have ended := Reader.next_of_rows_nil works.rows_eq
      rw [step] at ended
      cases ended
    | (none, rest) =>
      have unopposed : enricher.objection = none := by
        simp [Enricher.objection, held, Resumer.finish, BatchResumer.finish, found]
      have ended := Enricher.next_of_end step work
      rw [unopposed] at ended
      have runs : job.Runs { enricher with reader := rest, finished := true } work records :=
        works.runs.of_alike ⟨rfl, rfl, rfl, Enricher.rowLength_of_next step⟩
      refine ⟨_, work, ?_, by simpa [recordsFrom] using runs⟩
      rw [Enricher.writeOffers_eq, ended]
  | cons row left ih =>
    obtain ⟨rest, step, later⟩ := works.step
    have offered := Enricher.next_of_row step work
    simp only [held, Enricher.decide, Resumer.filter, BatchResumer.filter, found] at offered
    have working := later (some (.batch resumer))
    have sequence := paginates.sequence enricher.nextIndex row
      (by simp [works.split, works.index_eq])
    obtain ⟨writer, nextWork, written, further⟩ :=
      working.writePages paginates.paged sequence.sized
    obtain ⟨last, lastWork, finished, whole⟩ := ih further rfl
    refine ⟨last, lastWork, ?_, ?_⟩
    · rw [Enricher.writeOffers_eq, offered]
      simp only [Page.due, Option.bind_none, written]
      exact finished
    · rw [List.length_append, List.length_singleton, works.index_eq] at whole
      rw [recordsFrom_cons, ← List.append_assoc]
      exact whole

/-- A resumer that still looks for its batch among the input rows. -/
structure Seeks (job : Job) (enricher : Enricher) (key : ColumnKey) (input : Nat) (batch : Batch)
    (cutAt : Option Nat) (output : ResumableOutput) : Prop where
  held : enricher.resumer = some (.batch
    { output, valueColumn := key, inputColumn := input, batch := some batch, cutAt,
      searching := true })
  path_eq : output.path = job.path

variable {batch : Batch} {cutAt : Option Nat} {output : ResumableOutput}

/-- Rows of other values are passed over. -/
theorem Seeks.skip (seeks : job.Seeks enricher key input batch cutAt output) {skipped : List Row}
    (works : job.Works enricher work records earlier (skipped ++ left))
    (other : ∀ row ∈ skipped, row.cell input ≠ batch.value) :
    ∃ later still, enricher.next work = later.next work ∧
      job.Works later work records (earlier ++ skipped) left ∧
      job.Seeks later key input batch cutAt still ∧ later.writer = enricher.writer := by
  induction skipped generalizing enricher earlier output with
  | nil => exact ⟨enricher, output, rfl, by simpa using works, seeks, rfl⟩
  | cons row skipped ih =>
    obtain ⟨rest, step, working⟩ := works.step
    have apart := other row (by simp)
    have passed := Enricher.next_of_row step work
    simp only [seeks.held, Enricher.decide, Resumer.filter, BatchResumer.filter, ne_eq, apart,
      not_false_eq_true, if_true] at passed
    have seeking : job.Seeks
        { enricher with
          reader := rest
          nextIndex := enricher.nextIndex + 1
          resumer := some (.batch
            { output := output.tell .inputRowSkipped row, valueColumn := key, inputColumn := input,
              batch := some batch, cutAt, searching := true }) }
        key input batch cutAt (output.tell .inputRowSkipped row) := ⟨rfl, seeks.path_eq⟩
    obtain ⟨later, still, same, arrived, sought, writer⟩ :=
      ih seeking (working _) fun row member => other row (by simp [member])
    exact ⟨later, still, passed.trans same, by simpa using arrived, sought, writer⟩

/-- The output once the rows behind its last checkpoint are cut off. -/
structure Cuts (job : Job) (work : Workspace) (cutAt : Option Nat) (records before : List Row) :
    Prop where
  holds : work.Holds job.path (job.text records)
  keeps : cutAt = none ∧ records = before ∨
    cutAt = some (job.text before).length ∧ before <+: records

theorem Cuts.dropPartialPage {before : List Row} (cuts : job.Cuts work cutAt records before)
    (path_eq : output.path = job.path) (key : ColumnKey) (input : Nat) (batch : Batch) :
    ∃ rest kept, BatchResumer.dropPartialPage work
        { output, valueColumn := key, inputColumn := input, batch := some batch, cutAt } =
        (.ok rest, { output, valueColumn := key, inputColumn := input, batch := some kept }) ∧
      kept.cursor = batch.cursor ∧ rest.Holds job.path (job.text before) := by
  rcases cuts.keeps with ⟨rfl, rfl⟩ | ⟨rfl, leading⟩
  · exact ⟨work, batch, rfl, rfl, cuts.holds⟩
  · obtain ⟨others, rfl⟩ := leading
    have holds := cuts.holds
    rw [job.text_append] at holds
    refine ⟨_, { batch with rows := [] }, ?_, rfl, holds.home.put_holds _⟩
    simp [BatchResumer.dropPartialPage, path_eq, holds.resize, Outcome.mapError_ok]

/-- A writer that has written nothing yet goes on with whatever its file holds. -/
theorem Works.rewind (works : job.Works enricher work records earlier left)
    (untouched : enricher.writer.output = ⟨.file job.path, .empty⟩) {other : Workspace}
    {before : List Row} (holds : other.Holds job.path (job.text before)) :
    job.Works enricher other before earlier left := by
  refine ⟨⟨works.runs.plan_eq, works.runs.rowLength_eq, works.runs.endSymbol_eq,
    works.runs.dialect_eq, works.runs.fills.length_eq, works.runs.fills.kept, ?_⟩, works.rows_eq,
    works.split, works.index_eq⟩
  rw [untouched]
  exact ⟨rfl, Sink.ready_of_holds rfl holds, by simp [Output.text, Sink.text, holds.held]⟩

/-- At the row of the batch the open rows are cut off; a finished row is passed over, any other one
is offered with the checkpoint it had reached. -/
theorem Seeks.reach (seeks : job.Seeks enricher key input batch cutAt output)
    (works : job.Works enricher work records earlier (row :: left))
    (untouched : enricher.writer.output = ⟨.file job.path, .empty⟩)
    (here : row.cell input = batch.value) {before : List Row}
    (cuts : job.Cuts work cutAt records before) :
    ∃ later rest kept, job.Works later rest before (earlier ++ [row]) left ∧ Idle later ∧
      kept.cursor = batch.cursor ∧
      enricher.next work =
        if batch.finished then later.next rest
        else (some (.ok ⟨enricher.nextIndex, row, some kept⟩), later, rest) := by
  obtain ⟨reader, step, working⟩ := works.step
  obtain ⟨rest, kept, dropped, cursor, holds⟩ := cuts.dropPartialPage seeks.path_eq key input batch
  have reached := Enricher.next_of_row step work
  simp only [seeks.held, Enricher.decide, Resumer.filter, BatchResumer.filter, here, ne_eq,
    not_true_eq_false, if_false, dropped] at reached
  cases finished : batch.finished with
  | true =>
    simp only [finished, if_true] at reached
    exact ⟨_, rest, kept, (working _).rewind untouched holds, ⟨_, rfl, rfl⟩, cursor, reached⟩
  | false =>
    simp only [finished, Bool.false_eq_true, if_false] at reached
    exact ⟨_, rest, kept, (working _).rewind untouched holds, ⟨_, rfl, rfl⟩, cursor, reached⟩

/-- A run on a workspace that comes to its end without error and leaves this content in the
output. -/
def Finishes (job : Job) (key : ColumnKey) (pages : Nat → Row → List Page) (work : Workspace)
    (content : Bytes) : Prop :=
  ∃ enricher opened last lastWork,
    job.resume (.batch (job.pagedResumer key)) work = (.ok enricher, opened) ∧
      enricher.writeOffers pages opened = (.ok (), last, lastWork) ∧
      (last.close lastWork).2.file? job.path = some content

theorem Works.of_fresh (runs : job.Runs enricher work records) {resumer : Resumer}
    (fresh : job.Fresh enricher resumer) : job.Works enricher work records [] job.rows :=
  ⟨runs, by rw [fresh.reader_eq, job.reads], rfl, fresh.nextIndex_eq⟩

/-- The pages that are due where the output was cut complete it. -/
theorem Paginates.writeOffers_of_cut (paginates : job.Paginates key value input pages)
    {later : List Row} (rows : job.rows = earlier ++ row :: later) {done rest : List Page}
    (parts : pages earlier.length row = done ++ rest)
    (works : job.Works enricher work records [] job.rows)
    (untouched : enricher.writer.output = ⟨.file job.path, .empty⟩)
    (value_eq : row.cell input = batch.value) (finished : batch.finished = rest.isEmpty)
    (cursor : batch.cursor = done.getLast?.bind Page.cursor)
    (seeks : job.Seeks enricher key input batch cutAt output)
    (cuts : job.Cuts work cutAt records
      (job.recordsFrom pages 0 earlier ++ job.rowRecords row done)) :
    ∃ last lastWork, enricher.writeOffers pages work = (.ok (), last, lastWork) ∧
      job.Runs last lastWork (job.recordsFrom pages 0 job.rows) := by
  have whole : job.recordsFrom pages 0 job.rows =
      job.recordsFrom pages 0 earlier ++ job.rowRecords row done ++ job.rowRecords row rest ++
        job.recordsFrom pages (earlier.length + 1) later := by
    calc job.recordsFrom pages 0 job.rows
        = job.recordsFrom pages 0 earlier ++
            job.recordsFrom pages earlier.length (row :: later) := by
          rw [rows, recordsFrom_append, Nat.zero_add]
      _ = job.recordsFrom pages 0 earlier ++ (job.rowRecords row (done ++ rest) ++
            job.recordsFrom pages (earlier.length + 1) later) := by
          rw [recordsFrom_cons, parts]
      _ = _ := by
          rw [rowRecords_append]
          simp only [List.append_assoc]
  rw [rows] at works
  obtain ⟨arrived, still, passed, working, seeking, writer⟩ :=
    seeks.skip works fun other member => value_eq ▸ paginates.other_value rows member
  rw [List.nil_append] at working
  obtain ⟨behind, rewound, kept, continuing, idle, reached, next⟩ :=
    seeking.reach working (writer ▸ untouched) value_eq cuts
  have sequence := paginates.sequence earlier.length row (by simp [rows])
  rw [parts] at sequence
  rw [whole]
  cases rest with
  | nil =>
    rw [finished, List.isEmpty_nil, if_pos rfl] at next
    obtain ⟨last, lastWork, ended, runs⟩ := continuing.writeOffers paginates idle
    refine ⟨last, lastWork, ?_, by simpa [rowRecords] using runs⟩
    calc enricher.writeOffers pages work
        = behind.writeOffers pages rewound := Enricher.writeOffers_congr pages (passed.trans next)
      _ = (.ok (), last, lastWork) := ended
  | cons page others =>
    rw [finished, List.isEmpty_cons, if_neg (by decide)] at next
    have due := sequence.due_eq (by simp) (reached.trans cursor)
    obtain ⟨final, finalWork, written, further⟩ := continuing.writePages paginates.paged
      (fun other member => sequence.sized other (List.mem_append_right done member))
    obtain ⟨last, lastWork, ended, runs⟩ := further.writeOffers paginates idle
    refine ⟨last, lastWork, ?_, by simpa using runs⟩
    calc enricher.writeOffers pages work
        = arrived.writeOffers pages work := Enricher.writeOffers_congr pages passed
      _ = ({ behind with writer := final } : Enricher).writeOffers pages finalWork := by
          rw [Enricher.writeOffers_eq, next]
          simp only [working.index_eq, parts, due, written]
      _ = (.ok (), last, lastWork) := ended

/-- Let an enrichment write its output page by page, and cut the output off behind its header or
behind any record. A run that resumes there and writes, for each row offered, the pages behind the
checkpoint it comes with, or all of its pages, ends without error and leaves the file that a run
from nothing leaves, byte for byte. The output path is that of a file, not the dash of the
console. -/
theorem paged_runs_complete (paginates : job.Paginates key value input pages) :
    (∀ vacant : Workspace, vacant.Home job.path → vacant.file? job.path = none →
      job.Finishes key pages vacant (job.text (job.recordsFrom pages 0 job.rows))) ∧
    ∀ (count : Nat) (work : Workspace), work.Home job.path →
      work.file? job.path = some (job.text ((job.recordsFrom pages 0 job.rows).take count)) →
        job.Finishes key pages work (job.text (job.recordsFrom pages 0 job.rows)) := by
  obtain ⟨names, _, header⟩ := paginates.exists_header
  have here : (Resumer.batch (job.pagedResumer key)).output.path = job.path := rfl
  refine ⟨?_, ?_⟩
  · intro vacant home absent
    obtain ⟨enricher, opened, resumed, runs, fresh⟩ :=
      resume_anew here home (by simp [Workspace.size, absent])
    obtain ⟨last, lastWork, ended, written⟩ :=
      (Works.of_fresh runs fresh).writeOffers paginates ⟨_, fresh.resumer_eq, rfl⟩
    exact ⟨enricher, opened, last, lastWork, resumed, ended, written.close.held⟩
  · intro count work home held
    have leading := List.take_prefix count (job.recordsFrom pages 0 job.rows)
    generalize (job.recordsFrom pages 0 job.rows).take count = cut at held leading
    have resume {looked : BatchResumer} (still : looked.output.path = job.path)
        (inspected : (job.pagedResumer key).inspect job.context job.defaults work =
          (.ok (), looked)) :=
      resume_behind here (show (Resumer.batch looked).output.path = job.path from still)
        (by simp [header]) ⟨home, held⟩ (by simp only [Resumer.inspect, inspected])
    by_cases nothing : cut = []
    · subst nothing
      obtain ⟨enricher, resumed, runs, fresh, _⟩ := resume rfl (paginates.inspect_of_header held)
      obtain ⟨last, lastWork, ended, written⟩ :=
        (Works.of_fresh runs fresh).writeOffers paginates ⟨_, fresh.resumer_eq, rfl⟩
      exact ⟨enricher, work, last, lastWork, resumed, ended, written.close.held⟩
    · obtain ⟨earlier, row, later, done, rest, opened, rows, parts, rfl, same, closed⟩ :=
        paginates.exists_cut leading nothing
      obtain ⟨folded, output, path, inspected⟩ :=
        paginates.inspect_of_cut rows parts leading same closed held
      obtain ⟨enricher, resumed, runs, fresh, untouched⟩ := resume path inspected
      have cuts : job.Cuts work (if opened = [] then none else some (job.text
          (job.recordsFrom pages 0 earlier ++ job.rowRecords row done)).length)
          (job.recordsFrom pages 0 earlier ++ job.rowRecords row done ++ opened)
          (job.recordsFrom pages 0 earlier ++ job.rowRecords row done) := by
        refine ⟨⟨home, held⟩, ?_⟩
        by_cases whole : opened = []
        · exact .inl ⟨if_pos whole, by rw [whole, List.append_nil]⟩
        · exact .inr ⟨if_neg whole, List.prefix_append _ _⟩
      obtain ⟨last, lastWork, ended, written⟩ := paginates.writeOffers_of_cut rows parts
        (Works.of_fresh runs fresh) untouched rfl rfl rfl ⟨fresh.resumer_eq, path⟩ cuts
      exact ⟨enricher, work, last, lastWork, resumed, ended, written.close.held⟩

/-- Two pages for every row, the first of two rows and with a cursor. -/
def samplePages (_ : Nat) (_ : Row) : List Page :=
  [⟨[["1"], ["2"]], some "more"⟩, ⟨[["3"]], none⟩]

/-- An output that was cut off inside the first page of the second row. -/
theorem paged_runs_complete_sample :
    (sample .paged).Finishes (.named "name") samplePages
      (Workspace.put {} "out.csv" (Text.bytes
        "name,cursor,note\nann,,1\nann,more,2\nann,end,3\nbob,,1\n"))
      (Text.bytes ("name,cursor,note\nann,,1\nann,more,2\nann,end,3\n" ++
        "bob,,1\nbob,more,2\nbob,end,3\n")) := by
  have sequence : Page.Sequence "end" 1 [⟨[["1"], ["2"]], some "more"⟩, ⟨[["3"]], none⟩] := by
    refine ⟨by decide, by decide, ?_, by decide, by decide⟩
    intro page member
    obtain rfl : page = ⟨[["1"], ["2"]], some "more"⟩ := by simpa using member
    exact ⟨"more", rfl, by decide, by decide, by decide⟩
  have paginates : (sample .paged).Paginates (.named "name") 0 0 samplePages := by
    refine ⟨rfl, rfl, by decide, rfl, by decide, by decide, by decide, by decide, ?_, ?_⟩
    · unfold Text.StartsWithMark
      decide
    · intro index row _
      exact sequence
  have cut : (sample .paged).text (((sample .paged).recordsFrom samplePages 0
      (sample .paged).rows).take 4) =
        Text.bytes "name,cursor,note\nann,,1\nann,more,2\nann,end,3\nbob,,1\n" := by decide
  have whole : (sample .paged).text ((sample .paged).recordsFrom samplePages 0
      (sample .paged).rows) = Text.bytes ("name,cursor,note\nann,,1\nann,more,2\nann,end,3\n" ++
        "bob,,1\nbob,more,2\nbob,end,3\n") := by decide
  have finishes := (paged_runs_complete paginates).2 4
    (Workspace.put {} "out.csv" (Text.bytes
      "name,cursor,note\nann,,1\nann,more,2\nann,end,3\nbob,,1\n"))
    ((sample_home .paged).put "out.csv" _) (by rw [cut]; exact Workspace.file?_put_self _ _ _)
  rwa [whole] at finishes

end ResumableCsv.Job
