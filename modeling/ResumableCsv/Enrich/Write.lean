import ResumableCsv.Enrich.Basic

/-!
Writing enriched rows: the copied cells of an input row, its index or the cursor of its page, and
the cells that are added. Of several rows written at once, those before the first that is refused
stay written.
-/

namespace ResumableCsv.Enricher

/-- Writes one output row; `mark` is the index or cursor cell. -/
def emit (row : Row) (mark : Option String) (added : Row) (enricher : Enricher)
    (work : Workspace) : Except Error Unit × Enricher × Workspace :=
  match enricher.plan.copied enricher.reader.rowLength row with
  | .error error => (.error error, enricher, work)
  | .ok cells =>
    let (outcome, writer, work) := enricher.writer.writeRow (cells ++ mark.toList ++ added) work
    (outcome, { enricher with writer := writer }, work)

/-- The cell that ties an output row to its input row. -/
def indexMark (enricher : Enricher) (index : Nat) : Option String :=
  if enricher.plan.tracking = .indexed then some (toString index) else none

def writeRow (index : Nat) (row added : Row) (enricher : Enricher) (work : Workspace) :
    Except Error Unit × Enricher × Workspace :=
  enricher.emit row (enricher.indexMark index) added work

/-- Writes a row whose added cells are empty. -/
def writePadded (index : Nat) (row : Row) (enricher : Enricher) (work : Workspace) :
    Except Error Unit × Enricher × Workspace :=
  enricher.writeRow index row enricher.plan.padding work

/-- Writes one output row for each addendum. -/
def writeEach (index : Nat) (row : Row) (addenda : List Row) (enricher : Enricher)
    (work : Workspace) : Except Error Unit × Enricher × Workspace :=
  match addenda with
  | [] => (.ok (), enricher, work)
  | added :: rest =>
    match enricher.writeRow index row added work with
    | (.ok (), enricher, work) => enricher.writeEach index row rest work
    | failed => failed

def emitPage (row : Row) (mark : String) (addenda : List Row) (enricher : Enricher)
    (work : Workspace) : Except Error Unit × Enricher × Workspace :=
  match addenda with
  | [] => (.ok (), enricher, work)
  | [added] => enricher.emit row (some mark) added work
  | added :: rest =>
    match enricher.emit row (some "") added work with
    | (.ok (), enricher, work) => enricher.emitPage row mark rest work
    | failed => failed

/-- Writes a page. Its last row bears the cursor, or the end symbol when there is no further page;
an empty page still writes one row. -/
def writePage (row : Row) (addenda : List Row) (cursor : Option String) (enricher : Enricher)
    (work : Workspace) : Except Error Unit × Enricher × Workspace :=
  let pages := if addenda.isEmpty then [enricher.plan.padding] else addenda
  enricher.emitPage row (cursor.getD enricher.endSymbol) pages work

/-- Writing leaves the input alone. -/
theorem measure_emit (row : Row) (mark : Option String) (added : Row) (enricher : Enricher)
    (work : Workspace) : (enricher.emit row mark added work).2.1.measure = enricher.measure := by
  unfold emit
  split <;> rfl

/-- Works on every row offered, up to a number of them: writes it with the cells that `added`
computes. Gives the number of rows written. -/
def writeAll (limit : Option Nat) (added : Row → Row) (written : Nat) (enricher : Enricher)
    (work : Workspace) : Except Error Nat × Enricher × Workspace :=
  if limit = some 0 then (.ok written, enricher, work)
  else
    match _step : enricher.next work with
    | (none, last) => (.ok written, last)
    | (some (.error error), last) => (.error error, last)
    | (some (.ok offer), rest, restWork) =>
      match _written : rest.writeRow offer.index offer.row (added offer.row) restWork with
      | (.error error, last) => (.error error, last)
      | (.ok (), next, nextWork) =>
        writeAll (limit.map (· - 1)) added (written + 1) next nextWork
termination_by enricher.measure
decreasing_by
  have earlier := before_next enricher work
  have same := measure_emit offer.row (rest.indexMark offer.index) (added offer.row) rest restWork
  rw [_step] at earlier
  rw [writeRow] at _written
  rw [_written] at same
  have before := earlier (by simp)
  rw [Before, ← same] at before
  exact before

def flush (enricher : Enricher) (work : Workspace) : Enricher × Workspace :=
  let (writer, work) := enricher.writer.flush work
  ({ enricher with writer := writer }, work)

/-- Writes out what is held back and gives the sink back. -/
def close (enricher : Enricher) (work : Workspace) : Sink × Workspace :=
  enricher.writer.close work

end ResumableCsv.Enricher
