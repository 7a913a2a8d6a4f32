import ResumableCsv.Reader.Basic
import ResumableCsv.Resume.Resumer

/-!
Plans of enriched outputs: the input columns that are copied, an index or cursor column behind them
where the kind of enrichment needs one, and the columns that are added.
-/

namespace ResumableCsv

inductive AddedColumns
  | nothing
  | named (names : List String)
  | counted (count : Nat)
deriving DecidableEq, Repr

/-- How output rows are told apart: not at all, by input index, or by page cursor. -/
inductive Tracking
  | plain
  | indexed
  | paged
deriving DecidableEq, Repr

def Tracking.columnName? : Tracking → Option String
  | .plain => none
  | .indexed => some indexColumnName
  | .paged => some cursorColumnName

structure EnrichOptions where
  /-- The columns to copy, all of them unless a selection is given. -/
  selection : Option String := none
  added : AddedColumns := .nothing
  delimiter : Option UInt8 := none
  nuls : Option NulPolicy := none
  endSymbol : String := defaultEndSymbol

structure EnrichPlan where
  tracking : Tracking
  selected : List Nat
  addedLength : Nat
  fieldnames : Option (List String)
deriving DecidableEq, Repr

namespace EnrichPlan

def trackingLength (plan : EnrichPlan) : Nat := plan.tracking.columnName?.toList.length

def outputLength (plan : EnrichPlan) : Nat :=
  plan.selected.length + plan.trackingLength + plan.addedLength

def headers (plan : EnrichPlan) : Option Headers := plan.fieldnames.map Headers.ofNames

/-- The cells of a row that are copied; a row too short for one of them is refused. -/
def copied (plan : EnrichPlan) (rowLength : Nat) (row : Row) : Except Error Row :=
  match plan.selected.mapM fun index => row[index]? with
  | some cells => .ok cells
  | none => .error (.rowLengthMismatch rowLength row.length)

def padding (plan : EnrichPlan) : Row := List.replicate plan.addedLength ""

end EnrichPlan

namespace EnrichOptions

/-- Names go with a header row, counts with its absence. -/
def addedNames (options : EnrichOptions) (hasHeaders : Bool) :
    Except Error (List String × Nat) :=
  match options.added, hasHeaders with
  | .nothing, _ => .ok ([], 0)
  | .named names, true => .ok (names, names.length)
  | .named _, false => .error (.headersRequired .addNamedColumns)
  | .counted _, true => .error (.invalidConfiguration .addedColumnsNeedNames)
  | .counted count, false => .ok ([], count)

def plan (options : EnrichOptions) (tracking : Tracking) (reader : Reader) :
    Except Error EnrichPlan := do
  let selected ←
    match options.selection with
    | some selection => reader.select selection
    | none => pure (List.range reader.rowLength)
  let (names, length) ← options.addedNames reader.headers.isSome
  let fieldnames := reader.headers.map fun headers =>
    selected.filterMap (fun index => headers.fieldnames[index]?) ++
      tracking.columnName?.toList ++ names
  pure { tracking, selected, addedLength := length, fieldnames }

/-- The delimiter of the output, that of the input unless another is chosen. -/
def outputDelimiter (options : EnrichOptions) (reader : Reader) : UInt8 :=
  options.delimiter.getD reader.delimiter

def writerOptions (options : EnrichOptions) (plan : EnrichPlan) (reader : Reader)
    (defaults : Defaults) : WriterOptions :=
  { delimiter := options.outputDelimiter reader
    fieldnames := plan.fieldnames
    rowLength := if plan.fieldnames.isSome then none else some plan.outputLength
    nuls := options.nuls.getD defaults.writeNuls }

def outputContext (options : EnrichOptions) (plan : EnrichPlan) (reader : Reader) :
    OutputContext :=
  { fieldnames := plan.fieldnames
    delimiter := options.outputDelimiter reader
    selected := plan.selected
    indexColumn := if plan.tracking = .indexed then some plan.selected.length else none
    cursorColumn := if plan.tracking = .paged then some plan.selected.length else none
    endSymbol := options.endSymbol }

end EnrichOptions

end ResumableCsv
