import ResumableCsv.Proofs.Backward.Batches
import ResumableCsv.Proofs.Enrich.Job

/-!
Pages of output rows: what a caller writes for an input row page by page, the rows that come of it,
and where a cut through them may fall.
-/

namespace ResumableCsv

/-- The cells to add for one page, and the cursor of the page behind it, if there is one. -/
structure Page where
  addenda : List Row
  cursor : Option String
deriving DecidableEq, Repr

namespace Page

/-- The pages to write for a row: those behind the checkpoint that was reached, else all. -/
def due (pages : List Page) (resume : Option Batch) : List Page :=
  match resume.bind Batch.cursor with
  | none => pages
  | some cursor => (pages.dropWhile fun page => page.cursor ≠ some cursor).tail

/-- All pages but the last have a cursor, which tells them apart from each other, from open rows and
from the end. -/
structure Sequence (endSymbol : String) (length : Nat) (pages : List Page) : Prop where
  some_page : pages ≠ []
  last : ∀ page ∈ pages.getLast?, page.cursor = none
  earlier : ∀ page ∈ pages.dropLast, ∃ cursor, page.cursor = some cursor ∧ cursor ≠ "" ∧
    cursor ≠ endSymbol ∧ ¬crlf <:+: Text.bytes cursor
  unique : (pages.filterMap Page.cursor).Nodup
  sized : ∀ page ∈ pages, ∀ added ∈ page.addenda, added.length = length

/-- Behind the page that bears the cursor, just the others are due. -/
theorem Sequence.due_eq {endSymbol : String} {length : Nat} {done rest : List Page}
    (sequence : Sequence endSymbol length (done ++ rest)) (more : rest ≠ []) {batch : Batch}
    (reached : batch.cursor = done.getLast?.bind Page.cursor) :
    due (done ++ rest) (some batch) = rest := by
  rcases List.eq_nil_or_concat done with rfl | ⟨init, page, rfl⟩
  · have nothing : batch.cursor = none := reached
    simp [due, nothing]
  · rw [List.concat_eq_append] at sequence reached ⊢
    obtain ⟨next, others, rfl⟩ := List.exists_cons_of_ne_nil more
    obtain ⟨cursor, same, _⟩ := sequence.earlier page (by simp)
    rw [List.getLast?_concat, Option.bind_some, same] at reached
    have before : ∀ other ∈ init, other.cursor ≠ some cursor := by
      intro other member bears
      have unique := sequence.unique
      rw [List.append_assoc, List.filterMap_append, List.nodup_append] at unique
      exact unique.2.2 cursor (List.mem_filterMap.mpr ⟨other, member, bears⟩) cursor
        (by simp [same]) rfl
    have skipped : (init ++ [page] ++ next :: others).dropWhile
        (fun page => page.cursor ≠ some cursor) = page :: next :: others := by
      rw [List.append_assoc, List.dropWhile_append_of_pos (by simpa using before)]
      simp [same]
    simp only [due, Option.bind_some, reached, skipped, List.tail_cons]

theorem Sequence.cursor_unbroken {endSymbol : String} {length : Nat} {pages : List Page}
    (sequence : Sequence endSymbol length pages) (symbol : ¬crlf <:+: Text.bytes endSymbol)
    {page : Page} (member : page ∈ pages) :
    ¬crlf <:+: Text.bytes (page.cursor.getD endSymbol) := by
  obtain ⟨init, final, whole⟩ := (List.eq_nil_or_concat _).resolve_left sequence.some_page
  rw [List.concat_eq_append] at whole
  subst whole
  rcases List.mem_append.mp member with earlier | last
  · obtain ⟨cursor, same, _, _, unbroken⟩ := sequence.earlier page (by simpa using earlier)
    rw [same]
    exact unbroken
  · have none_there : page.cursor = none := sequence.last page (by
      rw [List.mem_singleton.mp last, List.getLast?_concat]
      rfl)
    rw [none_there]
    exact symbol

end Page

namespace Enricher

/-- Writes pages one after the other, up to the first that is refused. -/
def writePages (row : Row) (pages : List Page) (enricher : Enricher) (work : Workspace) :
    Except Error Unit × Enricher × Workspace :=
  match pages with
  | [] => (.ok (), enricher, work)
  | page :: rest =>
    match enricher.writePage row page.addenda page.cursor work with
    | (.ok (), enricher, work) => enricher.writePages row rest work
    | failed => failed

theorem measure_emitPage (row : Row) (mark : String) (addenda : List Row) (enricher : Enricher)
    (work : Workspace) :
    (enricher.emitPage row mark addenda work).2.1.measure = enricher.measure := by
  induction addenda generalizing enricher work with
  | nil => rfl
  | cons added addenda ih =>
    cases addenda with
    | nil => exact measure_emit row (some mark) added enricher work
    | cons next others =>
      have first := measure_emit row (some "") added enricher work
      rw [emitPage]
      split
      next later rest step =>
        rw [step] at first
        exact (ih later rest).trans first
      next => exact first
      · simp

theorem measure_writePages (row : Row) (pages : List Page) (enricher : Enricher)
    (work : Workspace) :
    (enricher.writePages row pages work).2.1.measure = enricher.measure := by
  induction pages generalizing enricher work with
  | nil => rfl
  | cons page pages ih =>
    have first : (enricher.writePage row page.addenda page.cursor work).2.1.measure =
        enricher.measure := measure_emitPage _ _ _ _ _
    rw [writePages]
    split
    next later rest step =>
      rw [step] at first
      exact (ih later rest).trans first
    next => exact first

/-- Works on every row offered and writes the pages that are due for it. -/
def writeOffers (pages : Nat → Row → List Page) (enricher : Enricher) (work : Workspace) :
    Except Error Unit × Enricher × Workspace :=
  match _step : enricher.next work with
  | (none, last) => (.ok (), last)
  | (some (.error error), last) => (.error error, last)
  | (some (.ok offer), rest, restWork) =>
    match _written :
        rest.writePages offer.row (Page.due (pages offer.index offer.row) offer.resume)
          restWork with
    | (.error error, last) => (.error error, last)
    | (.ok (), next, nextWork) => writeOffers pages next nextWork
termination_by enricher.measure
decreasing_by
  have earlier := before_next enricher work
  have same := measure_writePages offer.row
    (Page.due (pages offer.index offer.row) offer.resume) rest restWork
  rw [_step] at earlier
  rw [_written] at same
  have before := earlier (by simp)
  rw [Before, ← same] at before
  exact before

theorem writeOffers_eq (pages : Nat → Row → List Page) (enricher : Enricher) (work : Workspace) :
    enricher.writeOffers pages work =
      match enricher.next work with
      | (none, last) => (.ok (), last)
      | (some (.error error), last) => (.error error, last)
      | (some (.ok offer), rest, restWork) =>
        match rest.writePages offer.row (Page.due (pages offer.index offer.row) offer.resume)
            restWork with
        | (.error error, last) => (.error error, last)
        | (.ok (), next, nextWork) => next.writeOffers pages nextWork := by
  rw [writeOffers]
  split
  next step => rw [step]
  next step => rw [step]
  next offer rest restWork step =>
    rw [step]
    simp only
    split
    next written => rw [written]
    next written => rw [written]

/-- Only what comes next matters. -/
theorem writeOffers_congr (pages : Nat → Row → List Page) {enricher other : Enricher}
    {work otherWork : Workspace} (same : enricher.next work = other.next otherWork) :
    enricher.writeOffers pages work = other.writeOffers pages otherWork := by
  rw [writeOffers_eq, same, ← writeOffers_eq]

end Enricher

namespace Job

variable (job : Job)

/-- The rows of one page: only the last of them bears the cursor. -/
def pageRows (row : Row) (mark : String) : List Row → List Row
  | [] => []
  | [added] => [job.record row (some mark) added]
  | added :: rest => job.record row (some "") added :: pageRows row mark rest

def pageRecords (row : Row) (page : Page) : List Row :=
  job.pageRows row (page.cursor.getD job.options.endSymbol)
    (if page.addenda.isEmpty then [job.plan.padding] else page.addenda)

def rowRecords (row : Row) (pages : List Page) : List Row := pages.flatMap (job.pageRecords row)

/-- The output rows of input rows that are numbered from `index` on. -/
def recordsFrom (pages : Nat → Row → List Page) (index : Nat) (rows : List Row) : List Row :=
  (rows.zipIdx index).flatMap fun (row, position) => job.rowRecords row (pages position row)

/-- Where batches show in the output. -/
def columns (value : Nat) : BatchColumns := ⟨value, job.plan.selected.length⟩

variable {job} {enricher : Enricher} {work : Workspace} {records : List Row} {row : Row}

theorem recordsFrom_cons (pages : Nat → Row → List Page) (index : Nat) (row : Row)
    (rows : List Row) :
    job.recordsFrom pages index (row :: rows) =
      job.rowRecords row (pages index row) ++ job.recordsFrom pages (index + 1) rows := by
  simp [recordsFrom]

theorem length_record (paged : job.tracking = .paged) {row added : Row} {mark : String}
    (fits : added.length = job.plan.addedLength) :
    (job.record row (some mark) added).length = job.plan.outputLength := by
  have tracking : job.plan.trackingLength = 1 := by
    rw [EnrichPlan.trackingLength, job.tracking_eq, paged]
    rfl
  simp only [record, EnrichPlan.outputLength, tracking, fits, List.length_append, List.length_map]
  rfl

theorem Runs.emitPage (paged : job.tracking = .paged) (runs : job.Runs enricher work records)
    (length : row.length = job.reader.rowLength) (mark : String) {addenda : List Row}
    (sized : ∀ added ∈ addenda, added.length = job.plan.addedLength) :
    ∃ writer rest, enricher.emitPage row mark addenda work =
        (.ok (), { enricher with writer := writer }, rest) ∧
      job.Runs { enricher with writer := writer } rest
        (records ++ job.pageRows row mark addenda) := by
  induction addenda generalizing enricher work records with
  | nil => exact ⟨enricher.writer, work, rfl, by simpa [pageRows] using runs⟩
  | cons added addenda ih =>
    have fits := sized added (by simp)
    cases addenda with
    | nil => exact runs.emit length (length_record paged fits)
    | cons next others =>
      obtain ⟨writer, rest, first, later⟩ :=
        runs.emit length (length_record paged fits : (job.record row (some "") added).length = _)
      obtain ⟨last, lastWork, written, filled⟩ :=
        ih later fun other member => sized other (by simp [member])
      refine ⟨last, lastWork, ?_, ?_⟩
      · rw [Enricher.emitPage]
        · rw [first]
          exact written
        · simp
      · rw [List.append_assoc] at filled
        exact filled

/-- A page comes to stand at the end of the output. -/
theorem Runs.writePage (paged : job.tracking = .paged) (runs : job.Runs enricher work records)
    (length : row.length = job.reader.rowLength) {page : Page}
    (sized : ∀ added ∈ page.addenda, added.length = job.plan.addedLength) :
    ∃ writer rest, enricher.writePage row page.addenda page.cursor work =
        (.ok (), { enricher with writer := writer }, rest) ∧
      job.Runs { enricher with writer := writer } rest (records ++ job.pageRecords row page) := by
  have padded : ∀ added ∈ if page.addenda.isEmpty then [job.plan.padding] else page.addenda,
      added.length = job.plan.addedLength := by
    split
    · simp [EnrichPlan.padding]
    · exact sized
  have step : enricher.writePage row page.addenda page.cursor work =
      enricher.emitPage row (page.cursor.getD job.options.endSymbol)
        (if page.addenda.isEmpty then [job.plan.padding] else page.addenda) work := by
    rw [Enricher.writePage, runs.plan_eq, runs.endSymbol_eq]
  rw [step]
  exact runs.emitPage paged length (page.cursor.getD job.options.endSymbol) padded

theorem Runs.writePages (paged : job.tracking = .paged) (runs : job.Runs enricher work records)
    (length : row.length = job.reader.rowLength) {pages : List Page}
    (sized : ∀ page ∈ pages, ∀ added ∈ page.addenda, added.length = job.plan.addedLength) :
    ∃ writer rest, enricher.writePages row pages work =
        (.ok (), { enricher with writer := writer }, rest) ∧
      job.Runs { enricher with writer := writer } rest (records ++ job.rowRecords row pages) := by
  induction pages generalizing enricher work records with
  | nil => exact ⟨enricher.writer, work, rfl, by simpa [rowRecords] using runs⟩
  | cons page pages ih =>
    obtain ⟨writer, rest, first, later⟩ := runs.writePage paged length (sized page (by simp))
    obtain ⟨last, lastWork, written, filled⟩ :=
      ih later fun other member => sized other (by simp [member])
    refine ⟨last, lastWork, ?_, ?_⟩
    · rw [Enricher.writePages, first]
      exact written
    · rw [List.append_assoc] at filled
      exact filled

end Job

end ResumableCsv
