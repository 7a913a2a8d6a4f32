import ResumableCsv.Selection.Resolve

/-!
Projections of rows: a template names columns in a shape of tuples and records, a plan holds the
positions found for them once, and applying the plan to a row fills the shape with cells. A flat
projection reads its names as selection expressions and keeps no tuple inside a tuple.
-/

namespace ResumableCsv

inductive Template
  | column (key : ColumnKey)
  | tuple (items : List Template)
  | record (fields : List (String × Template))

inductive Projected
  | cell (text : String)
  | tuple (items : List Projected)
  | record (fields : List (String × Projected))

inductive Plan
  | cell (index : Nat)
  | cells (indices : List Nat)
  | tuple (items : List Plan)
  | record (fields : List (String × Plan))

namespace Projected

def asCell? : Projected → Option String
  | .cell text => some text
  | _ => none

mutual

/-- The leaf cells in order, whatever the shape. -/
def flatten : Projected → List String
  | .cell text => [text]
  | .tuple items => flattenItems items
  | .record fields => flattenFields fields

def flattenItems : List Projected → List String
  | [] => []
  | item :: rest => item.flatten ++ flattenItems rest

def flattenFields : List (String × Projected) → List String
  | [] => []
  | (_, item) :: rest => item.flatten ++ flattenFields rest

end

end Projected

namespace Plan

def pick (row : Row) (index : Nat) : Projected := .cell (row.cell index)

mutual

def apply (row : Row) : Plan → Projected
  | .cell index => pick row index
  | .cells indices => .tuple (indices.map (pick row))
  | .tuple items => .tuple (applyItems row items)
  | .record fields => .record (applyFields row fields)

def applyItems (row : Row) : List Plan → List Projected
  | [] => []
  | item :: rest => item.apply row :: applyItems row rest

def applyFields (row : Row) : List (String × Plan) → List (String × Projected)
  | [] => []
  | (name, item) :: rest => (name, item.apply row) :: applyFields row rest

end

end Plan

namespace Headers

mutual

/-- Looks every column of a template up and keeps its shape. -/
def project (headers : Headers) : Template → Except Error Plan
  | .column key => (headers.resolve key).map .cell
  | .tuple items => (projectItems headers items).map .tuple
  | .record fields => (projectFields headers fields).map .record

def projectItems (headers : Headers) : List Template → Except Error (List Plan)
  | [] => .ok []
  | item :: rest => do
    let plan ← headers.project item
    let plans ← projectItems headers rest
    pure (plan :: plans)

def projectFields (headers : Headers) :
    List (String × Template) → Except Error (List (String × Plan))
  | [] => .ok []
  | (name, item) :: rest => do
    let plan ← headers.project item
    let plans ← projectFields headers rest
    pure ((name, plan) :: plans)

end

def leafIndices (headers : Headers) : ColumnKey → Except Error (List Nat)
  | .named expression => headers.select expression
  | key => (headers.resolve key).map fun index => [index]

mutual

def flatIndices (headers : Headers) : Template → Except Error (List Nat)
  | .column key => headers.leafIndices key
  | .tuple items => flatItems headers items
  | .record _ => .error (.invalidConfiguration .recordInTuple)

def flatItems (headers : Headers) : List Template → Except Error (List Nat)
  | [] => .ok []
  | item :: rest => do
    let indices ← headers.flatIndices item
    let others ← flatItems headers rest
    pure (indices ++ others)

end

mutual

/-- Reads names as selection expressions and strings the columns of a tuple together. -/
def flatProject (headers : Headers) : Template → Except Error Plan
  | .column key => (headers.leafIndices key).map fun indices =>
      match indices with
      | [index] => .cell index
      | indices => .cells indices
  | .tuple items => (headers.flatItems items).map .cells
  | .record fields => (flatProjectFields headers fields).map .record

def flatProjectFields (headers : Headers) :
    List (String × Template) → Except Error (List (String × Plan))
  | [] => .ok []
  | (name, item) :: rest => do
    let plan ← headers.flatProject item
    let plans ← flatProjectFields headers rest
    pure ((name, plan) :: plans)

end

end Headers

end ResumableCsv
