import ResumableCsv.CommandLine.Argument
import ResumableCsv.Resume.Context

/-!
The commands of the program and what each is told to do.
-/

namespace ResumableCsv.CommandLine

structure InputArguments where
  path : String
  delimiter : Option UInt8
  noHeaders : Bool
deriving DecidableEq, Repr

inductive Command
  /-- Counts the data rows of a file. -/
  | count (input : InputArguments) (maxRows : Option Nat)
  /-- Copies a selection of columns. -/
  | select (input : InputArguments) (columns : String) (output : Option String) (resume : Bool)
      (encoding : Option String)
  /-- Writes the rows of a file last row first. -/
  | reverse (input : InputArguments) (output : Option String) (chunkSize : Nat)
  /-- Prints the last cell of a column. -/
  | lastCell (input : InputArguments) (column : String)
  /-- Prints the last batch of a file as a document. -/
  | lastBatch (input : InputArguments) (value cursor endSymbol : String)
deriving DecidableEq, Repr

namespace Command

/-- The files a command reads and writes. -/
def paths : Command → List String
  | .count input _ => [input.path]
  | .select input _ output .. => input.path :: output.toList
  | .reverse input output _ => input.path :: output.toList
  | .lastCell input _ => [input.path]
  | .lastBatch input .. => [input.path]

def inputKinds : List Argument := [.input, .delimiter, .noHeaders]

def inputOf (given : Given) : InputArguments :=
  ⟨given.text .input, given.delimiter?, given.has .noHeaders⟩

/-- Names, arguments and needs of a command, and how it is made of the arguments given. -/
structure Form where
  name : String
  optional : List Argument
  required : List Argument
  make : Given → Command

def forms : List Form :=
  [{ name := "count"
     optional := [.maxRows]
     required := []
     make := fun given => .count (inputOf given) (given.counter? .maxRows) },
   { name := "select"
     optional := [.output, .resume, .inputEncoding]
     required := [.columns]
     make := fun given =>
      .select (inputOf given) (given.text .columns) (given.lookup .output) (given.has .resume)
        (given.lookup .inputEncoding) },
   { name := "reverse"
     optional := [.output, .chunkSize]
     required := []
     make := fun given =>
      .reverse (inputOf given) (given.lookup .output)
        ((given.counter? .chunkSize).getD BackwardReader.defaultChunkSize) },
   { name := "last-cell"
     optional := []
     required := [.column]
     make := fun given => .lastCell (inputOf given) (given.text .column) },
   { name := "last-batch"
     optional := [.endSymbol]
     required := [.value, .cursor]
     make := fun given =>
      .lastBatch (inputOf given) (given.text .value) (given.text .cursor)
        ((given.lookup .endSymbol).getD defaultEndSymbol) }]

/-- What is resumed needs a name. -/
def Form.isComplete (form : Form) (given : Given) : Bool :=
  given.has .input && form.required.all given.has && (!given.has .resume || given.has .output)

def Form.read (form : Form) (tokens : List String) : Except Refusal Command := do
  let given ← readArguments (inputKinds ++ form.optional ++ form.required) [] tokens
  if form.isComplete given then pure (form.make given) else .error .usage

def helpCommand : String := "help"

/-- Help is given on the program or on one command. -/
def readHelp (topics : List String) : Refusal :=
  match topics with
  | [] => .help
  | [topic] =>
    if topic = helpCommand ∨ (forms.any fun form => form.name = topic) = true then .help else .usage
  | _ => .usage

/-- The letters behind a dash in front of any command; the first decides. -/
def readLetters : List Char → Refusal
  | 'h' :: _ => .help
  | 'V' :: _ => .version
  | _ => .usage

/-- Reads a whole command line, the program's name left aside. -/
def parse : List String → Except Refusal Command
  | [] => .error .usage
  | name :: tokens =>
    match forms.find? fun form => form.name = name with
    | some form => form.read tokens
    | none =>
      if name = helpCommand then .error (readHelp tokens)
      else if name = "--help" then .error .help
      else if name = "--version" then .error .version
      else
        match name.toList with
        | '-' :: letters => .error (readLetters letters)
        | _ => .error .usage

end Command

end ResumableCsv.CommandLine
