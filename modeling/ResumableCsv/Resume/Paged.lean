import ResumableCsv.Backward.LastBatch
import ResumableCsv.Resume.Context
import ResumableCsv.Resume.Output

/-!
Resuming paginated work: the last batch of the output tells which input row was being worked on and
the checkpoint it had reached. Rows written behind that checkpoint are cut off once the input
reaches the batch, since their page is written again.
-/

namespace ResumableCsv

/-- What becomes of an input row: it is skipped, or offered with the batch to continue. -/
inductive Verdict
  | skip
  | offer (batch : Option Batch)
deriving DecidableEq, Repr

structure BatchResumer where
  output : ResumableOutput
  valueColumn : ColumnKey
  inputColumn : Nat := 0
  /-- The interrupted batch, until it is handed over. -/
  batch : Option Batch := none
  /-- Where the rows behind the last checkpoint start. -/
  cutAt : Option Nat := none
  searching : Bool := false

namespace BatchResumer

/-- Finds the last batch of the output; its open rows are told. -/
def inspect (context : OutputContext) (defaults : Defaults) (work : Workspace)
    (resumer : BatchResumer) : Except Error Unit × BatchResumer :=
  let path := resumer.output.path
  let columns := do
    context.checkHeader path defaults work
    let value ← context.outputColumn resumer.valueColumn
    pure (value, ← context.inputColumn value)
  match columns with
  | .error error => (.error error, resumer)
  | .ok (value, inputColumn) =>
    let resumer := { resumer with inputColumn := inputColumn }
    match context.cursorColumn with
    | none => (.error (.invalidConfiguration .noCursorColumn), resumer)
    | some cursor =>
      match (context.backwardOptions defaults).locateLastBatch path (.position value)
          (.position cursor) context.endSymbol work with
      | .error error => (.error error, resumer)
      | .ok none => (.ok (), resumer)
      | .ok (some (batch, start)) =>
        (.ok (),
          { resumer with
            output := resumer.output.tellAll .outputRowRead batch.rows
            batch := some batch
            cutAt := start
            searching := true })

/-- Cuts the rows behind the last checkpoint off, if there are any. -/
def dropPartialPage (work : Workspace) (resumer : BatchResumer) :
    Except Error Workspace × BatchResumer :=
  match resumer.cutAt with
  | none => (.ok work, resumer)
  | some offset =>
    ((work.resize resumer.output.path offset).mapError .io,
      { resumer with
        cutAt := none
        batch := resumer.batch.map fun batch => { batch with rows := [] } })

/-- Skips rows up to the interrupted batch, and the batch too when it is finished. -/
def filter (row : Row) (work : Workspace) (resumer : BatchResumer) :
    Except Error Verdict × BatchResumer × Workspace :=
  match resumer.searching, resumer.batch with
  | true, some batch =>
    if row.cell resumer.inputColumn ≠ batch.value then
      (.ok .skip, { resumer with output := resumer.output.tell .inputRowSkipped row }, work)
    else
      match { resumer with searching := false }.dropPartialPage work with
      | (.error error, resumer) => (.error error, resumer, work)
      | (.ok work, resumer) =>
        if batch.finished then
          (.ok .skip,
            { resumer with
              output := resumer.output.tell .inputRowSkipped row
              batch := none },
            work)
        else (.ok (.offer resumer.batch), { resumer with batch := none }, work)
  | _, _ => (.ok (.offer none), resumer, work)

def finish (resumer : BatchResumer) : Except Error Unit :=
  if resumer.searching then
    .error (.resume (.batchNotReached ((resumer.batch.map Batch.value).getD "")))
  else .ok ()

end BatchResumer

end ResumableCsv
