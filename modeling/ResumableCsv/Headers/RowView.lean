import ResumableCsv.Headers.Basic

/-!
A row seen through its header: cells by column, and pairs of names and cells.
-/

namespace ResumableCsv

structure RowView where
  headers : Headers
  cells : Row

namespace RowView

def get? (view : RowView) (key : ColumnKey) : Option String :=
  (view.headers.get? key).bind fun index => view.cells[index]?

def contains (view : RowView) (key : ColumnKey) : Bool := (view.get? key).isSome

/-- The cell an index stands for; a position is checked against the cells alone. -/
def cellAt? (view : RowView) : ColumnKey → Option String
  | .position index => view.cells[index]?
  | key => view.get? key

def pairs (view : RowView) : List (String × String) := view.headers.fieldnames.zip view.cells

/-- Swaps other cells in, as many as there are columns. -/
def replace (view : RowView) (cells : Row) : Except Error RowView :=
  if cells.length = view.headers.length then .ok { view with cells := cells }
  else .error (.rowLengthMismatch view.headers.length cells.length)

end RowView

end ResumableCsv
