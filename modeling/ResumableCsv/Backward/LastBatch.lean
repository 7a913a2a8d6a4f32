import ResumableCsv.Backward.Reader
import ResumableCsv.Batch

/-!
The last batch of a file. The last row fixes the value; a row of another value, a checkpoint or the
end symbol stops the search, and the rows passed before that make up the batch.
-/

namespace ResumableCsv

structure BatchColumns where
  value : Nat
  cursor : Nat

namespace BackwardReader

/-- Goes backward over the rows of one batch, which it collects together with the offset where the
earliest of them starts. -/
def scanBatch (columns : BatchColumns) (endSymbol : String) (batch : Option Batch)
    (start : Option Nat) (reader : BackwardReader) : Except Error (Option (Batch × Option Nat)) :=
  match _step : reader.nextRecord with
  | (.error error, _) => .error error
  | (.ok none, _) => .ok (batch.map fun batch => (batch, start))
  | (.ok (some (offset, row)), rest) =>
    let batch := batch.getD { value := row.cell columns.value }
    let cursor := row.cell columns.cursor
    if batch.value ≠ row.cell columns.value then .ok (some (batch, start))
    else if cursor = endSymbol then .ok (some ({ batch with finished := true }, start))
    else if cursor ≠ "" then .ok (some ({ batch with cursor := some cursor }, start))
    else
      scanBatch columns endSymbol (some { batch with rows := row :: batch.rows }) (some offset) rest
termination_by reader.tail.remaining
decreasing_by
  have fewer := remaining_nextRecord reader
  rw [_step] at fewer
  exact fewer (by simp)

end BackwardReader

namespace BackwardOptions

/-- The last batch of a file, and the offset where its rows start when it has any. -/
def locateLastBatch (options : BackwardOptions) (path : String) (value cursor : ColumnKey)
    (endSymbol : String) (work : Workspace) : Except Error (Option (Batch × Option Nat)) := do
  match ← options.openFilled path work with
  | none => pure none
  | some reader =>
    let value ← reader.requiredColumn value
    let cursor ← reader.requiredColumn cursor
    reader.scanBatch ⟨value, cursor⟩ endSymbol none none

def lastBatch (options : BackwardOptions) (path : String) (value cursor : ColumnKey)
    (endSymbol : String) (work : Workspace) : Except Error (Option Batch) :=
  (options.locateLastBatch path value cursor endSymbol work).map (·.map Prod.fst)

end BackwardOptions

end ResumableCsv
