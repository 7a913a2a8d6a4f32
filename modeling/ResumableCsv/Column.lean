/-!
Rows of cells, and references to a column: by name, by name and occurrence, or by position counted
from zero.
-/

namespace ResumableCsv

abbrev Row := List String

/-- A cell missing from a short row counts as empty. -/
def Row.cell (row : Row) (index : Nat) : String := (row[index]?).getD ""

inductive ColumnKey
  | named (name : String)
  | nth (name : String) (occurrence : Nat)
  | position (index : Nat)
deriving DecidableEq, Repr

def ColumnKey.label : ColumnKey → String
  | .named name => name
  | .nth name occurrence => name ++ "[" ++ toString occurrence ++ "]"
  | .position index => "#" ++ toString index

end ResumableCsv
