import ResumableCsv.Proofs.Enrich.Job
import ResumableCsv.Proofs.Enrich.Offers
import ResumableCsv.Proofs.Writer.Records

/-!
Enrichers that store their rows under any NUL policy: how the output is opened anew or continued,
and what one call does to it. A row that cannot be stored is refused, and nothing changes.
-/

namespace ResumableCsv

namespace Job

variable (job : Job)

def mark (index : Nat) : Option String :=
  if job.tracking = .indexed then some (toString index) else none

/-- The output row for an offered row and the cells added to it. -/
def entry (written : Offer × Row) : Row :=
  job.record written.1.row (job.mark written.1.index) written.2

/-- The options of a job under another NUL policy. -/
def storing (nuls : NulPolicy) : EnrichOptions := { job.options with nuls := some nuls }

def writerOptions (nuls : NulPolicy) : WriterOptions :=
  (job.storing nuls).writerOptions job.plan job.reader job.defaults

/-- Opens the output of a job as `resume` does, under another NUL policy. -/
def resumeStoring (nuls : NulPolicy) (resumer : Resumer) (work : Workspace) :
    Except (Error × Resumer) Enricher × Workspace :=
  (job.storing nuls).openResumed job.tracking job.reader resumer job.defaults work

/-- The records of the output once these rows are stored. -/
def storedText (nuls : NulPolicy) (rows : List Row) : Bytes :=
  tableText job.context.dialect ((job.header ++ rows).map nuls.stored)

variable {job} {nuls : NulPolicy}

/-- An output row is as long as it should be when the cells added to it are. -/
theorem length_entry (single : job.tracking ≠ .paged) (written : Offer × Row) :
    (job.entry written).length = job.plan.outputLength ↔
      written.2.length = job.plan.addedLength := by
  have marks : (job.mark written.1.index).toList.length = job.plan.trackingLength := by
    rw [EnrichPlan.trackingLength, job.tracking_eq, mark]
    cases tracking : job.tracking with
    | plain => rfl
    | indexed => rfl
    | paged => exact absurd tracking single
  simp only [entry, record, List.length_append, List.length_map, marks, EnrichPlan.outputLength]
  omega

theorem map_stored_keep (rows : List Row) : rows.map NulPolicy.keep.stored = rows :=
  List.map_id rows

theorem storedText_keep (rows : List Row) : job.storedText .keep rows = job.text rows := by
  rw [storedText, map_stored_keep, text]

theorem storedText_append (rows others : List Row) :
    job.storedText nuls (rows ++ others) =
      job.storedText nuls rows ++ tableText job.context.dialect (others.map nuls.stored) := by
  rw [storedText, storedText, ← List.append_assoc, List.map_append, tableText_append]

theorem writerOptions_keep (job : Job) :
    job.writerOptions .keep = job.options.writerOptions job.plan job.reader job.defaults := by
  simp only [writerOptions, storing, EnrichOptions.writerOptions, Option.getD_some, job.writesNuls,
    EnrichOptions.outputDelimiter]

theorem shape_storing :
    (job.writerOptions nuls).shape = .ok (job.plan.fieldnames, some job.plan.outputLength) :=
  job.shape_eq

/-- When NULs are kept, every row of the right length can be stored. -/
theorem fits_keep {row : Row} (length : row.length = job.plan.outputLength) :
    (job.writerOptions .keep).Fits job.plan.outputLength row :=
  WriterOptions.fits_of_keep rfl length

/-- The policy of a job is to keep NULs. -/
theorem resumeStoring_keep (job : Job) (resumer : Resumer) (work : Workspace) :
    job.resumeStoring .keep resumer work = job.resume resumer work := by
  have planned : (job.storing .keep).plan job.tracking job.reader = .ok job.plan := job.planned
  simp only [resumeStoring, resume, EnrichOptions.openResumed, planned, job.planned]
  rw [← writerOptions, writerOptions_keep]
  rfl

/-- An enricher of a job that has put some records behind what was there. -/
structure Stores (job : Job) (nuls : NulPolicy) (enricher : Enricher) (work : Workspace)
    (before : Bytes) (records : List Row) : Prop where
  plan_eq : enricher.plan = job.plan
  rowLength_eq : enricher.reader.rowLength = job.reader.rowLength
  adds : (job.writerOptions nuls).Adds enricher.writer work job.path job.plan.outputLength before
    records

section

variable {resumer looked : Resumer} {work opened : Workspace} {writer : Writer}
  (same : resumer.output.path = job.path)

theorem resumeStoring_eq (job : Job) (nuls : NulPolicy) (resumer : Resumer) (work : Workspace) :
    job.resumeStoring nuls resumer work =
      match (job.writerOptions nuls).resumeWith job.context resumer job.defaults work with
      | (.error error, looked, opened) => (.error (error, looked), opened)
      | (.ok writer, looked, opened) => (.ok (job.enricher writer looked), opened) := by
  have planned : (job.storing nuls).plan job.tracking job.reader = .ok job.plan := job.planned
  simp only [resumeStoring, EnrichOptions.openResumed, planned]
  rfl

include same

/-- Where nothing is yet, an output is made anew, with the header row as it is stored. -/
theorem stores_anew (home : work.Home job.path) (vacant : work.size job.path = 0)
    (built : (job.writerOptions nuls).build (.file job.path) true (work.put job.path []) =
      .ok (writer, opened)) :
    ∃ enricher, job.resumeStoring nuls resumer work = (.ok enricher, opened) ∧
      job.Fresh enricher resumer ∧
      job.Stores nuls enricher opened (job.storedText nuls []) [] := by
  have adds := (WriterOptions.adds_of_build shape_storing (home.put_holds []) built).settle
  rw [if_pos rfl] at adds
  refine ⟨job.enricher writer resumer, ?_, ⟨rfl, rfl, rfl⟩, rfl, rfl, ?_⟩
  · rw [resumeStoring_eq, WriterOptions.resumeWith_anew same home vacant built]
  · rw [storedText, List.append_nil]
    exact adds

/-- It is made only if the header row can be stored. -/
theorem exists_built_of_resumeStoring (home : work.Home job.path) (vacant : work.size job.path = 0)
    {enricher : Enricher} (resumed : (job.resumeStoring nuls resumer work).1 = .ok enricher) :
    ∃ writer opened, (job.writerOptions nuls).build (.file job.path) true (work.put job.path []) =
      .ok (writer, opened) := by
  rw [resumeStoring_eq] at resumed
  rcases step : (job.writerOptions nuls).resumeWith job.context resumer job.defaults work with
    ⟨error | writer, other, later⟩
  · rw [step] at resumed
    cases resumed
  · obtain ⟨opened, built⟩ := WriterOptions.build_of_resumeWith_anew same home vacant
      (congrArg Prod.fst step)
    exact ⟨writer, opened, built⟩

omit same in
/-- When NULs are kept, the header row can always be stored. -/
theorem exists_built_keep (home : work.Home job.path) :
    ∃ writer opened, (job.writerOptions .keep).build (.file job.path) true (work.put job.path []) =
      .ok (writer, opened) := by
  obtain ⟨writer, opened, built, _⟩ :=
    job.build_of_fills (Output.fills_of_holds (home.put_holds [])) true
  rw [← writerOptions_keep] at built
  exact ⟨writer, opened, built⟩

variable {content : Bytes} (filled : content ≠ [])

include filled

/-- Where something is already, rows come behind its last line, unless the resumer objects. -/
theorem stores_behind (holds : work.Holds job.path content) (still : looked.output.path = job.path)
    (inspected : resumer.inspect job.context job.defaults work = (.ok (), looked)) :
    ∃ enricher, job.resumeStoring nuls resumer work =
        (.ok enricher, work.endLine job.path content) ∧ job.Fresh enricher looked ∧
      job.Stores nuls enricher (work.endLine job.path content) (Record.ended content) [] := by
  let writer := (job.writerOptions nuls).start (.file job.path) job.plan.fieldnames
    (some job.plan.outputLength)
  have built : (job.writerOptions nuls).build (.file job.path) false
      (work.endLine job.path content) = .ok (writer, work.endLine job.path content) :=
    WriterOptions.build_of_unheaded shape_storing rfl
  refine ⟨job.enricher writer looked, ?_, ⟨rfl, rfl, rfl⟩, rfl, rfl,
    WriterOptions.adds_of_build shape_storing holds.endLine built⟩
  rw [resumeStoring_eq,
    WriterOptions.resumeWith_behind same holds.held filled still inspected built]

/-- What a resumer objects to is reported, and the output is left alone. -/
theorem resumeStoring_refused (held : work.file? job.path = some content) {error : Error}
    (inspected : resumer.inspect job.context job.defaults work = (.error error, looked)) :
    job.resumeStoring nuls resumer work = (.error (error, looked), work) := by
  rw [resumeStoring_eq, WriterOptions.resumeWith_refused same held filled inspected]

end

namespace Stores

variable {enricher : Enricher} {work : Workspace} {before : Bytes} {records : List Row}
  (stores : job.Stores nuls enricher work before records)

include stores

theorem of_alike {other : Enricher} (alike : enricher.Alike other) :
    job.Stores nuls other work before records := by
  refine ⟨alike.plan_eq.trans stores.plan_eq, alike.rowLength_eq.trans stores.rowLength_eq, ?_⟩
  rw [alike.writer_eq]
  exact stores.adds

theorem flush : job.Stores nuls (enricher.flush work).1 (enricher.flush work).2 before records :=
  ⟨stores.plan_eq, stores.rowLength_eq, stores.adds.flush⟩

/-- Dropping the enricher leaves the records in the file. -/
theorem close :
    (enricher.close work).2.Holds job.path
      (before ++ tableText job.context.dialect records) :=
  stores.adds.close

variable {offer : Offer} {added : Row} (length : offer.row.length = job.reader.rowLength)

include length

theorem writeRow_eq :
    enricher.writeRow offer.index offer.row added work =
      ((enricher.writer.writeRow (job.entry (offer, added)) work).1,
        { enricher with writer := (enricher.writer.writeRow (job.entry (offer, added)) work).2.1 },
        (enricher.writer.writeRow (job.entry (offer, added)) work).2.2) := by
  have marked : enricher.indexMark offer.index = job.mark offer.index := by
    rw [Enricher.indexMark, stores.plan_eq, job.tracking_eq, mark]
  rw [Enricher.writeRow, marked]
  exact emit_eq stores.plan_eq stores.rowLength_eq length _ added work

/-- A row that can be stored comes to stand behind the others. -/
theorem writeRow
    (fits : (job.writerOptions nuls).Fits job.plan.outputLength (job.entry (offer, added))) :
    ∃ writer rest, enricher.writeRow offer.index offer.row added work =
        (.ok (), { enricher with writer := writer }, rest) ∧
      job.Stores nuls { enricher with writer := writer } rest before
        (records ++ [nuls.stored (job.entry (offer, added))]) := by
  obtain ⟨writer, rest, written, adds⟩ := stores.adds.writeRow fits
  exact ⟨writer, rest, by rw [stores.writeRow_eq length, written], stores.plan_eq,
    stores.rowLength_eq, adds⟩

theorem writeRow_refused
    (other : ¬(job.writerOptions nuls).Fits job.plan.outputLength (job.entry (offer, added))) :
    ∃ error, enricher.writeRow offer.index offer.row added work =
      (.error error, enricher, work) := by
  obtain ⟨error, refused⟩ := stores.adds.writeRow_refused other
  exact ⟨error, by rw [stores.writeRow_eq length, refused]⟩

end Stores

end Job

end ResumableCsv
