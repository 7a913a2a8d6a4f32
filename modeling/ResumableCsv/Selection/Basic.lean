import ResumableCsv.Column

/-!
Selections of columns: a list of selectors, possibly inverted to mean every other column.
-/

namespace ResumableCsv

inductive Selector
  | single (key : ColumnKey)
  | indexed (name : String) (occurrence : Nat)
  | range (first : ColumnKey) (last : Option ColumnKey)
deriving DecidableEq, Repr

structure Selection where
  selectors : List Selector
  inverted : Bool
deriving DecidableEq, Repr

def ColumnKey.isPositional : ColumnKey → Bool
  | .position _ => true
  | _ => false

def Selector.isPositional : Selector → Bool
  | .single key => key.isPositional
  | .indexed .. => false
  | .range first last => first.isPositional && last.all ColumnKey.isPositional

/-- A selection that only uses positions needs no header row. -/
def Selection.isPositional (selection : Selection) : Bool :=
  selection.selectors.all Selector.isPositional

end ResumableCsv
