import ResumableCsv.Backward.Reader

/-!
What a run expects its output to look like: the header row, and where each leading output column
comes from. The header of an existing output is compared with it before anything else is read.
-/

namespace ResumableCsv

def indexColumnName : String := "index"

def cursorColumnName : String := "cursor"

/-- The cursor that marks a finished batch unless another is chosen. -/
def defaultEndSymbol : String := "end"

structure OutputContext where
  fieldnames : Option (List String)
  delimiter : UInt8
  /-- The input column behind each leading output column. -/
  selected : List Nat := []
  indexColumn : Option Nat := none
  cursorColumn : Option Nat := none
  endSymbol : String := defaultEndSymbol
deriving DecidableEq, Repr

namespace OutputContext

def hasHeaders (context : OutputContext) : Bool := context.fieldnames.isSome

def outputColumn (context : OutputContext) (key : ColumnKey) : Except Error Nat :=
  match context.fieldnames, key with
  | some names, key => ((Headers.ofNames names).resolve key).mapError (Error.asMissing key)
  | none, .position index => .ok index
  | none, key => .error (.headersRequired (.findOutputColumn key))

def inputColumn (context : OutputContext) (outputColumn : Nat) : Except Error Nat :=
  match context.selected[outputColumn]? with
  | some index => .ok index
  | none => .error (.invalidConfiguration (.columnNotCopied outputColumn))

/-- How the rows of an existing output are read. -/
def readerOptions (context : OutputContext) (defaults : Defaults) : ReaderOptions :=
  { defaults.readerOptions with
    delimiter := some context.delimiter
    noHeaders := !context.hasHeaders
    prebuffer := none }

/-- How an existing output is read from its end. -/
def backwardOptions (context : OutputContext) (defaults : Defaults) : BackwardOptions :=
  { defaults.backwardOptions with
    delimiter := some context.delimiter
    noHeaders := !context.hasHeaders }

/-- Refuses an output whose first row is not the expected header. -/
def checkHeader (context : OutputContext) (path : String) (defaults : Defaults)
    (work : Workspace) : Except Error Unit :=
  match context.fieldnames with
  | none => .ok ()
  | some expected => do
    let reader ← { context.readerOptions defaults with noHeaders := true }.openPath path work
    let found ← reader.peek.1
    let found := found.getD []
    if found = expected then pure () else .error (.resume (.headerMismatch found expected))

end OutputContext

end ResumableCsv
