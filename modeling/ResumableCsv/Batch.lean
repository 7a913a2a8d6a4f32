import ResumableCsv.Column

/-!
Batches: neighbouring rows that share one value, with the checkpoint reached in them.
-/

namespace ResumableCsv

/-- Rows in forward order that follow the last checkpoint of a value. -/
structure Batch where
  value : String
  finished : Bool := false
  cursor : Option String := none
  rows : List Row := []
deriving DecidableEq, Repr

namespace Batch

/-- The distinct cells of one column, in ascending order; short rows have none. -/
def distinct (batch : Batch) (column : Nat) : List String :=
  ((batch.rows.filterMap fun row => row[column]?).mergeSort fun a b => a ≤ b).eraseDups

end Batch

end ResumableCsv
