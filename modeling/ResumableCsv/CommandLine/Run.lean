import ResumableCsv.Backward.LastBatch
import ResumableCsv.CommandLine.Command
import ResumableCsv.Enrich.Write
import ResumableCsv.Json.Basic

/-!
Running commands on a workspace. A command that fails says what it was doing and why, and what it
wrote up to then stays written.
-/

namespace ResumableCsv

/-- The causes below a fault, each told again. -/
def Error.causes : Error → List String
  | .io fault => [fault.message]
  | .csv fault => [fault.message, fault.message]
  | _ => []

def Batch.document (batch : Batch) : Json :=
  .object
    [("value", .text batch.value),
     ("finished", .boolean batch.finished),
     ("cursor", Json.ofOption batch.cursor),
     ("rows", .array (batch.rows.map Json.ofTexts))]

namespace CommandLine

inductive Cause
  | library (error : Error)
  /-- A column was asked for, and an expression for another number of columns was given. -/
  | notOneColumn (expression : String)

/-- Why a command failed, and what it was doing. -/
structure CommandFailure where
  doing : Option String := none
  cause : Cause

namespace CommandFailure

def message (failure : CommandFailure) : String :=
  let reasons :=
    match failure.cause with
    | .library error => error.message :: error.causes
    | .notOneColumn expression => ["'" ++ expression ++ "' must designate exactly one column"]
  ": ".intercalate (failure.doing.toList ++ reasons)

end CommandFailure

/-- Says what was being done when an error arose. -/
def whileDoing {α : Type} (doing : String) (outcome : Except Error α) : Except CommandFailure α :=
  outcome.mapError fun error => { doing := some doing, cause := .library error }

def plainly {α : Type} (outcome : Except Error α) : Except CommandFailure α :=
  outcome.mapError fun error => { cause := .library error }

/-- A command may change the workspace and then fail. -/
abbrev Action := Workspace → Except CommandFailure Unit × Workspace

/-- An action that only prints. -/
def printing (find : Workspace → Except CommandFailure String) : Action := fun work =>
  match find work with
  | .error failure => (.error failure, work)
  | .ok text => (.ok (), work.print (Text.bytes text))

namespace InputArguments

def readerOptions (input : InputArguments) (defaults : Defaults) : ReaderOptions :=
  { defaults.readerOptions with delimiter := input.delimiter, noHeaders := input.noHeaders }

def backwardOptions (input : InputArguments) (defaults : Defaults) : BackwardOptions :=
  { defaults.backwardOptions with delimiter := input.delimiter, noHeaders := input.noHeaders }

def shown (input : InputArguments) : String := Text.quotedPath input.path

end InputArguments

/-- A selection expression that stands for one column. -/
def columnKey (expression : String) : Except CommandFailure ColumnKey := do
  let selection ←
    whileDoing ("Parsing column '" ++ expression ++ "'") (Selection.parse expression)
  match selection with
  | ⟨[.single key], false⟩ => pure key
  | ⟨[.indexed name occurrence], false⟩ => pure (.nth name occurrence)
  | _ => .error { cause := .notOneColumn expression }

/-- The sink of a command: a file made anew, or the console. -/
def openOutput (output : Option String) (work : Workspace) :
    Except CommandFailure (Sink × Workspace) :=
  match output with
  | none => .ok (.console, work)
  | some path => whileDoing ("Opening output " ++ Text.quotedPath path) (Sink.create path work)

def count (defaults : Defaults) (input : InputArguments) (maxRows : Option Nat) : Action :=
  printing fun work => do
  let found ←
    whileDoing ("Counting rows of " ++ input.shown)
      ((input.readerOptions defaults).count input.path maxRows work)
  match found with
  | some number => pure (toString number ++ "\n")
  | none => pure (">" ++ toString (maxRows.getD 0) ++ "\n")

/-- Copies every row that is still to be done. -/
def copyRows (enricher : Enricher) : Action := fun work =>
  let (outcome, enricher, work) :=
    enricher.writeAll none (fun _ => enricher.plan.padding) 0 work
  let (_, work) := enricher.close work
  ((plainly outcome).map fun _ => (), work)

def openSelected (charsets : String → Charset) (defaults : Defaults) (input : InputArguments)
    (encoding : Option String) (work : Workspace) : Except CommandFailure Reader := do
  let encoding ←
    match encoding with
    | none => pure Encoding.utf8
    | some label => plainly (Encoding.resolve label charsets)
  whileDoing ("Opening " ++ input.shown)
    ({ input.readerOptions defaults with encoding := encoding }.openPath input.path work)

def selectResumed (defaults : Defaults) (reader : Reader) (options : EnrichOptions)
    (output : String) : Action := fun work =>
  match plainly (ResumableOutput.ofPath output) with
  | .error failure => (.error failure, work)
  | .ok resumable =>
    match options.openResumed .plain reader (.rowCount { output := resumable }) defaults work with
    | (.error (error, _), work) =>
      (whileDoing ("Resuming " ++ Text.quotedPath output) (.error error), work)
    | (.ok enricher, work) => copyRows enricher work

def selectAnew (defaults : Defaults) (reader : Reader) (options : EnrichOptions)
    (columns : String) (output : Option String) : Action := fun work =>
  match openOutput output work with
  | .error failure => (.error failure, work)
  | .ok (sink, work) =>
    let opened := options.openSink .plain reader sink defaults work
    match whileDoing ("Selecting '" ++ columns ++ "'") opened with
    | .error failure => (.error failure, (sink.close work).2)
    | .ok (enricher, work) => copyRows enricher work

def select (charsets : String → Charset) (defaults : Defaults) (input : InputArguments)
    (columns : String) (output : Option String) (resume : Bool) (encoding : Option String) :
    Action := fun work =>
  match openSelected charsets defaults input encoding work with
  | .error failure => (.error failure, work)
  | .ok reader =>
    let options : EnrichOptions := { selection := some columns }
    match output, resume with
    | some path, true => selectResumed defaults reader options path work
    | output, _ => selectAnew defaults reader options columns output work

/-- Writes rows that were read backward, up to the first failure. -/
def writeReversed (input : InputArguments) (writer : Writer) (work : Workspace) :
    List (Except Error Row) → Except CommandFailure Unit × Writer × Workspace
  | [] => (.ok (), writer, work)
  | .error error :: _ =>
    (whileDoing ("Reading " ++ input.shown ++ " backward") (.error error), writer, work)
  | .ok row :: rest =>
    match writer.writeRow row work with
    | (.ok (), writer, work) => writeReversed input writer work rest
    | (.error error, writer, work) =>
      (whileDoing "Writing reversed row" (.error error), writer, work)

def reverse (defaults : Defaults) (input : InputArguments) (output : Option String)
    (chunkSize : Nat) : Action := fun work =>
  let opened := do
    let reader ←
      whileDoing ("Opening " ++ input.shown ++ " for reverse reading")
        ({ input.backwardOptions defaults with chunkSize := chunkSize }.openPath input.path work)
    pure (reader, ← openOutput output work)
  match opened with
  | .error failure => (.error failure, work)
  | .ok (reader, sink, work) =>
    let options : WriterOptions :=
      { defaults.writerOptions with
        delimiter := reader.dialect.delimiter
        fieldnames := reader.fieldnames }
    match plainly (options.openSink sink work) with
    | .error failure => (.error failure, (sink.close work).2)
    | .ok (writer, work) =>
      let (outcome, writer, work) := writeReversed input writer work reader.rows
      (outcome, (writer.close work).2)

def lastCell (defaults : Defaults) (input : InputArguments) (column : String) : Action :=
  printing fun work => do
  let key ← columnKey column
  let found ←
    whileDoing ("Reading the last '" ++ column ++ "' of " ++ input.shown)
      ((input.backwardOptions defaults).lastCell input.path key work)
  match found with
  | some cell => pure (cell ++ "\n")
  | none => pure ""

def lastBatch (defaults : Defaults) (input : InputArguments) (value cursor endSymbol : String) :
    Action := printing fun work => do
  let valueKey ← columnKey value
  let cursorKey ← columnKey cursor
  let found ←
    whileDoing ("Reading the last batch of " ++ input.shown)
      ((input.backwardOptions defaults).lastBatch input.path valueKey cursorKey endSymbol work)
  let document := (found.map Batch.document).getD .null
  pure (document.pretty 0 ++ "\n")

def Command.action (charsets : String → Charset) (defaults : Defaults) : Command → Action
  | .count input maxRows => CommandLine.count defaults input maxRows
  | .select input columns output resume encoding =>
    CommandLine.select charsets defaults input columns output resume encoding
  | .reverse input output chunkSize => CommandLine.reverse defaults input output chunkSize
  | .lastCell input column => CommandLine.lastCell defaults input column
  | .lastBatch input value cursor endSymbol =>
    CommandLine.lastBatch defaults input value cursor endSymbol

/-- Runs a command with some character sets, by default with what all of them share. -/
def Command.run (defaults : Defaults) (command : Command) (work : Workspace)
    (charsets : String → Charset := fun _ => .shared) : Except CommandFailure Unit × Workspace :=
  command.action charsets defaults work

end CommandLine

end ResumableCsv
