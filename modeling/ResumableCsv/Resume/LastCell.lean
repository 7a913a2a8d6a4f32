import ResumableCsv.Resume.Context
import ResumableCsv.Resume.Output

/-!
Resuming from the cell that was written last in one column: it is handed to the caller, or input
rows are skipped up to and including the one that holds it.
-/

namespace ResumableCsv

structure LastCellResumer where
  output : ResumableOutput
  column : ColumnKey
  state : Option String := none

def LastCellResumer.inspect (context : OutputContext) (defaults : Defaults) (work : Workspace)
    (resumer : LastCellResumer) : Except Error Unit × LastCellResumer :=
  let path := resumer.output.path
  let found := do
    context.checkHeader path defaults work
    let index ← context.outputColumn resumer.column
    (context.backwardOptions defaults).lastCell path (.position index) work
  match found with
  | .error error => (.error error, resumer)
  | .ok cell => (.ok (), { resumer with state := cell })

/-- Hands the cell over, once. -/
def LastCellResumer.pop (resumer : LastCellResumer) : Option String × LastCellResumer :=
  (resumer.state, { resumer with state := none })

structure CellMatchResumer where
  output : ResumableOutput
  column : ColumnKey
  lastCell : Option String := none
  inputColumn : Nat := 0
  reached : Bool := true

namespace CellMatchResumer

/-- Finds the last cell of the column, and the input column it was copied from. -/
def inspect (context : OutputContext) (defaults : Defaults) (work : Workspace)
    (resumer : CellMatchResumer) : Except Error Unit × CellMatchResumer :=
  let path := resumer.output.path
  let columns := do
    context.checkHeader path defaults work
    let index ← context.outputColumn resumer.column
    pure (index, ← context.inputColumn index)
  match columns with
  | .error error => (.error error, resumer)
  | .ok (index, inputColumn) =>
    let resumer := { resumer with inputColumn := inputColumn }
    match (context.backwardOptions defaults).lastCell path (.position index) work with
    | .error error => (.error error, resumer)
    | .ok cell => (.ok (), { resumer with lastCell := cell, reached := cell.isNone })

/-- Whether an input row is written already: all are up to the one with the last cell. -/
def filter (row : Row) (resumer : CellMatchResumer) : Bool × CellMatchResumer :=
  if resumer.reached then (false, resumer)
  else
    (true,
      { resumer with
        reached := row[resumer.inputColumn]? == resumer.lastCell
        output := resumer.output.tell .inputRowSkipped row })

def finish (resumer : CellMatchResumer) : Except Error Unit :=
  if resumer.reached then .ok ()
  else .error (.resume (.lastCellNotReached resumer.column resumer.lastCell))

end CellMatchResumer

end ResumableCsv
