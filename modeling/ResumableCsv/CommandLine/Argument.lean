import ResumableCsv.CommandLine.Delimiter
import ResumableCsv.Text.Numeral

/-!
The arguments behind a command's name. An option takes its value from behind an equals sign, from
the rest of a one-letter token, or from the next token, which then must not look like an option. No
option is given twice, and a plea for help counts if nothing before it is wrong.
-/

namespace ResumableCsv.CommandLine

/-- Why there is no command to run. -/
inductive Refusal
  | usage
  | help
  | version
deriving DecidableEq, Repr

inductive Argument
  | input
  | delimiter
  | noHeaders
  | maxRows
  | columns
  | output
  | resume
  | inputEncoding
  | chunkSize
  | column
  | value
  | cursor
  | endSymbol
deriving DecidableEq, Repr

namespace Argument

def name : Argument → String
  | .input => "input"
  | .delimiter => "delimiter"
  | .noHeaders => "no-headers"
  | .maxRows => "max-rows"
  | .columns => "columns"
  | .output => "output"
  | .resume => "resume"
  | .inputEncoding => "input-encoding"
  | .chunkSize => "chunk-size"
  | .column => "column"
  | .value => "value"
  | .cursor => "cursor"
  | .endSymbol => "end-symbol"

def letter? : Argument → Option Char
  | .input => some 'i'
  | .columns => some 'C'
  | .output => some 'o'
  | .column => some 'c'
  | _ => none

def isFlag : Argument → Bool
  | .noHeaders | .resume => true
  | _ => false

/-- Whether a text is a value of the argument. -/
def accepts (argument : Argument) (text : String) : Bool :=
  match argument with
  | .input | .output => text ≠ ""
  | .delimiter => (parseDelimiter text).toOption.isSome
  | .maxRows | .chunkSize => (Text.readCounter? text.toList).isSome
  | _ => true

end Argument

/-- The arguments met so far, with their values. -/
abbrev Given := List (Argument × String)

namespace Given

def add (argument : Argument) (text : String) (given : Given) : Except Refusal Given :=
  if (given.lookup argument).isSome || !argument.accepts text then .error .usage
  else .ok ((argument, text) :: given)

def has (given : Given) (argument : Argument) : Bool := (given.lookup argument).isSome

def text (given : Given) (argument : Argument) : String := (given.lookup argument).getD ""

def counter? (given : Given) (argument : Argument) : Option Nat :=
  (given.lookup argument).bind fun text => Text.readCounter? text.toList

def delimiter? (given : Given) : Option UInt8 :=
  (given.lookup .delimiter).bind fun text => (parseDelimiter text).toOption

end Given

/-- A single dash is an ordinary value. -/
def looksLikeOption (token : String) : Bool := token.startsWith "-" && token ≠ "-"

/-- What a token starts: nothing known, help, or an argument with a value that comes along. -/
inductive Start
  | unknown
  | help
  | argument (argument : Argument) (attached : Option String)

/-- The name in a long token, and the value behind its equals sign. -/
def cutAtEquals : List Char → List Char × Option (List Char)
  | [] => ([], none)
  | '=' :: value => ([], some value)
  | c :: rest => (c :: (cutAtEquals rest).1, (cutAtEquals rest).2)

def startOf (known : List Argument) (token : String) : Start :=
  match token.toList with
  | '-' :: '-' :: body =>
    let (name, attached) := cutAtEquals body
    if String.ofList name = "help" then if attached.isNone then .help else .unknown
    else
      match known.find? fun argument => argument.name = String.ofList name with
      | some argument => .argument argument (attached.map String.ofList)
      | none => .unknown
  | ['-', 'h'] => .help
  | '-' :: letter :: body =>
    if letter = 'h' then .help
    else
      match known.find? fun argument => argument.letter? = some letter with
      | none => .unknown
      | some argument =>
        match body with
        | [] => .argument argument none
        | '=' :: value => .argument argument (some (String.ofList value))
        | value => .argument argument (some (String.ofList value))
  | _ => .unknown

/-- Reads the tokens behind a command's name. -/
def readArguments (known : List Argument) (given : Given) : List String → Except Refusal Given
  | [] => .ok given
  | ["--"] => .ok given
  | token :: rest =>
    match startOf known token with
    | .unknown => .error .usage
    | .help => .error .help
    | .argument argument attached =>
      if argument.isFlag then
        if attached.isSome then .error .usage
        else (given.add argument "").bind fun given => readArguments known given rest
      else
        match attached, rest with
        | some value, rest =>
          (given.add argument value).bind fun given => readArguments known given rest
        | none, value :: rest =>
          if looksLikeOption value then .error .usage
          else (given.add argument value).bind fun given => readArguments known given rest
        | none, [] => .error .usage

end ResumableCsv.CommandLine
