import ResumableCsv.Outcome
import ResumableCsv.Resume.Context
import ResumableCsv.Resume.Output

/-!
Resuming by number: as many input rows are skipped as the output holds.
-/

namespace ResumableCsv

structure RowCountResumer where
  output : ResumableOutput
  rowCount : Nat := 0
  skipped : Nat := 0

namespace RowCountResumer

/-- Counts the rows of the output; each of them is told. -/
def inspect (context : OutputContext) (defaults : Defaults) (work : Workspace)
    (resumer : RowCountResumer) : Except Error Unit × RowCountResumer :=
  let path := resumer.output.path
  let opened := do
    context.checkHeader path defaults work
    (context.readerOptions defaults).openPath path work
  match opened with
  | .error error => (.error error, resumer)
  | .ok reader =>
    let (rows, outcome) := Outcome.untilFailure reader.rows
    let told := { resumer with output := resumer.output.tellAll .outputRowRead rows }
    match outcome with
    | .error error => (.error error, told)
    | .ok () => (.ok (), { told with rowCount := rows.length, skipped := 0 })

/-- Whether the next input row is written already. -/
def filter (row : Row) (resumer : RowCountResumer) : Bool × RowCountResumer :=
  if resumer.rowCount ≤ resumer.skipped then (false, resumer)
  else
    (true,
      { resumer with
        skipped := resumer.skipped + 1
        output := resumer.output.tell .inputRowSkipped row })

/-- The input must not end before all that is written was skipped. -/
def finish (resumer : RowCountResumer) : Except Error Unit :=
  if resumer.skipped < resumer.rowCount then
    .error (.resume (.inputTooShort resumer.rowCount resumer.skipped))
  else .ok ()

end RowCountResumer

end ResumableCsv
