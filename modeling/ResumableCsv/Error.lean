import ResumableCsv.Column
import ResumableCsv.Fault
import ResumableCsv.Text.Quoted

/-!
Every failure the library reports, by cause, and the sentence that tells it.
-/

namespace ResumableCsv

/-- What made a selection expression unreadable. -/
inductive SelectionFault
  | emptySelection
  | expectedColumn
  | unterminatedQuote
  | danglingEscape
  | malformedOccurrence
  | rangeOverOccurrence
  | positionTooLarge
  | positionZero
  | unexpectedCharacter
deriving DecidableEq, Repr

def SelectionFault.message : SelectionFault → String
  | .emptySelection => "empty selection"
  | .expectedColumn => "expected a column"
  | .unterminatedQuote => "unterminated quoted column"
  | .danglingEscape => "dangling escape"
  | .malformedOccurrence => "malformed occurrence index"
  | .rangeOverOccurrence => "ranges cannot use occurrence indices"
  | .positionTooLarge => "position is too large"
  | .positionZero => "positions start at 1"
  | .unexpectedCharacter => "unexpected character"

/-- What could not be done for want of a header row. -/
inductive HeadersNeed
  | selectByName (selection : String)
  | resolveColumn (column : ColumnKey)
  | findColumn (column : ColumnKey)
  | findOutputColumn (column : ColumnKey)
  | renameMultiplexed
  | project
  | wrapRows
  | writeHeader
  | addNamedColumns
deriving DecidableEq, Repr

def HeadersNeed.message : HeadersNeed → String
  | .selectByName selection => "selection '" ++ selection ++ "' refers to columns by name"
  | .resolveColumn column => "cannot resolve column '" ++ column.label ++ "' without headers"
  | .findColumn column => "cannot find column '" ++ column.label ++ "' without headers"
  | .findOutputColumn column =>
    "cannot find output column '" ++ column.label ++ "' without headers"
  | .renameMultiplexed => "cannot rename a multiplexed column"
  | .project => "projections need a header row"
  | .wrapRows => "cannot wrap rows without headers"
  | .writeHeader => "no fieldnames were given to the writer"
  | .addNamedColumns => "cannot add named columns to a headerless input"

/-- Options that contradict each other or the data they are applied to. -/
inductive ConfigurationFault
  | unknownEncoding (label : String)
  | emptySeparator
  | fieldnamesConflict (declared record : List String)
  | lengthConflict (names rowLength : Nat)
  | columnNotCopied (column : Nat)
  | noIndexColumn
  | noCursorColumn
  | recordInTuple
  | addedColumnsNeedNames
deriving DecidableEq, Repr

def ConfigurationFault.message : ConfigurationFault → String
  | .unknownEncoding label => "unknown encoding '" ++ label ++ "'"
  | .emptySeparator => "multiplex separator cannot be empty"
  | .fieldnamesConflict declared record =>
    "fieldnames " ++ Text.quotedList declared ++ " conflict with the record type's " ++
      Text.quotedList record
  | .lengthConflict names rowLength =>
    toString names ++ " fieldname(s) declared but row length is " ++ toString rowLength
  | .columnNotCopied column =>
    "output column " ++ toString column ++ " is not copied from the input"
  | .noIndexColumn => "the output has no index column"
  | .noCursorColumn => "the output has no cursor column"
  | .recordInTuple => "flat projections cannot nest records inside tuples"
  | .addedColumnsNeedNames => "added columns need names when the input has headers"

/-- Why an existing output and a fresh input do not fit together. -/
inductive ResumeFault
  | headerMismatch (found expected : List String)
  | inputTooShort (written available : Nat)
  | lastCellNotReached (column : ColumnKey) (cell : Option String)
  | batchNotReached (value : String)
deriving DecidableEq, Repr

def ResumeFault.message : ResumeFault → String
  | .headerMismatch found expected =>
    "output header " ++ Text.quotedList found ++ " does not match the expected " ++
      Text.quotedList expected
  | .inputTooShort written available =>
    "output holds " ++ toString written ++ " row(s) but the input only has " ++
      toString available
  | .lastCellNotReached column cell =>
    "the input never reached the last written '" ++ column.label ++ "' value " ++
      Text.quotedOption cell
  | .batchNotReached value =>
    "the input never reached the last written batch '" ++ value ++ "'"

inductive Error
  | io (fault : IoFault)
  | csv (fault : IoFault)
  | emptyFile
  | headersRequired (need : HeadersNeed)
  | missingColumn (column : String)
  | unknownColumn (name : String)
  | occurrenceOutOfRange (name : String) (occurrence available : Nat)
  | columnOutOfRange (index length : Nat)
  | selectionSyntax (selection fragment : String) (fault : SelectionFault)
  | rowLengthMismatch (expected actual : Nat)
  | nulByte (column : Nat)
  | decode (encoding : String)
  | notResumable (path : String)
  | resume (fault : ResumeFault)
  | corruptedIndexColumn (value : String) (row : Nat)
  | invalidConfiguration (fault : ConfigurationFault)
deriving DecidableEq, Repr

namespace Error

def message : Error → String
  | .io fault => "io error: " ++ fault.message
  | .csv fault => "csv error: " ++ fault.message
  | .emptyFile => "the input is empty"
  | .headersRequired need => "headers are required: " ++ need.message
  | .missingColumn column => "missing column '" ++ column ++ "'"
  | .unknownColumn name => "unknown column '" ++ name ++ "'"
  | .occurrenceOutOfRange name occurrence available =>
    "column '" ++ name ++ "' has " ++ toString available ++
      " occurrence(s), cannot get occurrence " ++ toString occurrence
  | .columnOutOfRange index length =>
    "column " ++ toString index ++ " is out of range (row has " ++ toString length ++
      " column(s))"
  | .selectionSyntax selection fragment fault =>
    "invalid selection '" ++ selection ++ "': " ++ fault.message ++ " near '" ++ fragment ++ "'"
  | .rowLengthMismatch expected actual =>
    "row length mismatch: expected " ++ toString expected ++ " cell(s), got " ++ toString actual
  | .nulByte column =>
    "cell " ++ toString column ++
      " contains a null byte that this sink cannot carry; configure NullBytes::Strip to remove it"
  | .decode encoding => "failed to decode text with encoding " ++ encoding
  | .notResumable path =>
    "output cannot be resumed: " ++ Text.quotedPath path ++ " is gzip-compressed"
  | .resume fault => "resume error: " ++ fault.message
  | .corruptedIndexColumn value row =>
    "corrupted index column: cannot parse '" ++ value ++ "' on output row " ++ toString row
  | .invalidConfiguration fault => "invalid configuration: " ++ fault.message

/-- A failed look-up of a column that was configured by the caller names that column as given. -/
def asMissing (column : ColumnKey) : Error → Error
  | .unknownColumn _ | .occurrenceOutOfRange .. | .columnOutOfRange .. =>
    .missingColumn column.label
  | other => other

end Error

end ResumableCsv
