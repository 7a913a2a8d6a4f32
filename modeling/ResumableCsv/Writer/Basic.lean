import ResumableCsv.Defaults
import ResumableCsv.Record.Render
import ResumableCsv.Writer.Output

/-!
Writers of rows. All rows have one length: that of the declared names, the declared one, or that of
the first row. A row of another length, or one that the NUL policy refuses, writes nothing.
-/

namespace ResumableCsv

structure WriterOptions where
  delimiter : UInt8 := Path.comma
  quote : UInt8 := 0x22
  fieldnames : Option (List String) := none
  /-- The names of the fields of the records to be written. -/
  recordFieldnames : Option (List String) := none
  rowLength : Option Nat := none
  writesHeader : Bool := true
  nuls : NulPolicy := .keep

def Defaults.writerOptions (defaults : Defaults) : WriterOptions := { nuls := defaults.writeNuls }

structure Writer where
  dialect : Dialect
  fieldnames : Option (List String)
  rowLength : Option Nat
  nuls : NulPolicy
  rowsWritten : Nat := 0
  output : Output

namespace WriterOptions

def header (options : WriterOptions) : Except Error (Option (List String)) :=
  match options.fieldnames, options.recordFieldnames with
  | some declared, some record =>
    if declared = record then .ok (some declared)
    else .error (.invalidConfiguration (.fieldnamesConflict declared record))
  | some names, none | none, some names => .ok (some names)
  | none, none => .ok none

/-- The header row and the length of rows, once the declarations agree. -/
def shape (options : WriterOptions) : Except Error (Option (List String) × Option Nat) := do
  match ← options.header, options.rowLength with
  | some names, some length =>
    if names.length = length then pure (some names, some length)
    else .error (.invalidConfiguration (.lengthConflict names.length length))
  | some names, none => pure (some names, some names.length)
  | none, length => pure (none, length)

end WriterOptions

namespace Writer

/-- Writes one record. The row length is settled before the NUL policy has its say. -/
def emit (cells : Row) (writer : Writer) (work : Workspace) :
    Except Error Unit × Writer × Workspace :=
  let expected := writer.rowLength.getD cells.length
  if cells.length ≠ expected then
    (.error (.rowLengthMismatch expected cells.length), writer, work)
  else
    let settled := { writer with rowLength := some expected }
    match writer.nuls.apply cells with
    | .error error => (.error error, settled, work)
    | .ok cells =>
      let pieces := Record.pieces writer.dialect (cells.map Text.bytes)
      let (output, work) := writer.output.pushAll pieces work
      (.ok (), { settled with output := output }, work)

def writeHeader (writer : Writer) (work : Workspace) : Except Error Unit × Writer × Workspace :=
  match writer.fieldnames with
  | some names => writer.emit names work
  | none => (.error (.headersRequired .writeHeader), writer, work)

def writeRow (cells : Row) (writer : Writer) (work : Workspace) :
    Except Error Unit × Writer × Workspace :=
  match writer.emit cells work with
  | (.ok (), writer, work) =>
    (.ok (), { writer with rowsWritten := writer.rowsWritten + 1 }, work)
  | failed => failed

/-- Writes rows in order, up to the first that is refused. -/
def writeRows (rows : List Row) (writer : Writer) (work : Workspace) :
    Except Error Unit × Writer × Workspace :=
  match rows with
  | [] => (.ok (), writer, work)
  | cells :: rest =>
    match writer.writeRow cells work with
    | (.ok (), writer, work) => writer.writeRows rest work
    | failed => failed

/-- Writes the cells of several parts as one row. -/
def writeConcat (parts : List Row) (writer : Writer) (work : Workspace) :
    Except Error Unit × Writer × Workspace :=
  writer.writeRow parts.flatten work

def flush (writer : Writer) (work : Workspace) : Writer × Workspace :=
  let (output, work) := writer.output.flush work
  ({ writer with output := output }, work)

/-- Writes out what is held back and gives the sink back. -/
def close (writer : Writer) (work : Workspace) : Sink × Workspace := writer.output.close work

end Writer

namespace WriterOptions

/-- A writer on a sink, with its header written if that is wanted. -/
def build (options : WriterOptions) (sink : Sink) (withHeader : Bool) (work : Workspace) :
    Except Error (Writer × Workspace) := do
  let (fieldnames, rowLength) ← options.shape
  let writer : Writer :=
    { dialect := ⟨options.delimiter, options.quote⟩
      fieldnames := fieldnames
      rowLength := rowLength
      nuls := options.nuls
      output := ⟨sink, .empty⟩ }
  if withHeader && fieldnames.isSome then
    match writer.writeHeader work with
    | (.ok (), writer, work) => pure (writer, work)
    | (.error error, _, _) => .error error
  else pure (writer, work)

def openSink (options : WriterOptions) (sink : Sink) (work : Workspace) :
    Except Error (Writer × Workspace) :=
  options.build sink options.writesHeader work

/-- Makes the file at a path anew; it stays, empty, also when the options are at fault. -/
def openPath (options : WriterOptions) (path : String) (work : Workspace) :
    Except Error Writer × Workspace :=
  match Sink.create path work with
  | .error error => (.error error, work)
  | .ok (sink, work) =>
    match options.openSink sink work with
    | .ok (writer, work) => (.ok writer, work)
    | .error error => (.error error, work)

end WriterOptions

end ResumableCsv
