import ResumableCsv.Error

/-!
What happens to NUL characters in cells: they pass, they are removed, or the row is refused.
-/

namespace ResumableCsv

inductive NulPolicy
  | keep
  | strip
  | reject
deriving DecidableEq, Repr

namespace NulPolicy

def hasNul (cell : String) : Bool := cell.toList.contains '\x00'

def stripCell (cell : String) : String := String.ofList (cell.toList.filter (· ≠ '\x00'))

/-- The first cell of a row that holds a NUL. -/
def firstNul? (row : Row) : Option Nat := row.findIdx? hasNul

def apply (policy : NulPolicy) (row : Row) : Except Error Row :=
  match policy with
  | .keep => .ok row
  | .strip => .ok (row.map stripCell)
  | .reject =>
    match firstNul? row with
    | some column => .error (.nulByte column)
    | none => .ok row

end NulPolicy

end ResumableCsv
