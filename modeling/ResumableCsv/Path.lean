import ResumableCsv.Text.Basic

/-!
Paths and what their names tell: the console mark, compression, and the delimiter an extension
implies. A trailing slash and repeated slashes do not matter.
-/

namespace ResumableCsv.Path

def isAbsolute (path : String) : Bool := path.toList.head? == some '/'

/-- The steps of a path; a dot counts only as the first step of a relative path. -/
def steps (path : String) : List (List Char) :=
  let pieces := Text.splitOn ['/'] path.toList
  let first := pieces.head?.getD []
  let named := pieces.filter fun piece => piece ≠ [] ∧ piece ≠ ['.']
  if first = ['.'] then first :: named else named

/-- The path a file is kept under. -/
def normal (path : String) : String :=
  let named := (steps path).filter (· ≠ ['.'])
  String.ofList ((if isAbsolute path then ['/'] else []) ++ Text.join ['/'] named)

/-- The path of the folder that holds a file. -/
def parent (path : String) : String :=
  let named := (steps path).filter (· ≠ ['.'])
  String.ofList ((if isAbsolute path then ['/'] else []) ++ Text.join ['/'] named.dropLast)

/-- A single dash stands for the standard streams. -/
def isConsole (path : String) : Bool := !isAbsolute path && steps path == [['-']]

def fileName? (path : String) : Option (List Char) :=
  match (steps path).getLast? with
  | none => none
  | some name => if name = ['.'] ∨ name = ['.', '.'] then none else some name

/-- What follows the last dot of a name, provided something comes before that dot. -/
def nameExtension? (name : List Char) : Option (List Char) :=
  if name = ['.', '.'] then none
  else
    match Text.splitOn ['.'] name with
    | [] | [_] | [[], _] => none
    | pieces => pieces.getLast?

def extension? (path : String) : Option (List Char) := (fileName? path).bind nameExtension?

def isGzip (path : String) : Bool :=
  (extension? path).map (·.map Text.asciiLower) == some ['g', 'z']

/-- The extension in lower case, a final mark of compression left aside. -/
def dataExtension? (path : String) : Option (List Char) :=
  match fileName? path with
  | none => none
  | some name =>
    let stem := name.dropLast.dropLast.dropLast
    let mark := name.drop stem.length
    let name := if mark = ".gz".toList ∨ mark = ".GZ".toList then stem else name
    (nameExtension? name).map (·.map Text.asciiLower)

def comma : UInt8 := 0x2C

def tab : UInt8 := 0x09

/-- The delimiter a file's extension implies. -/
def impliedDelimiter? (path : String) : Option UInt8 :=
  match dataExtension? path with
  | none => none
  | some extension =>
    if extension = "tsv".toList ∨ extension = "tab".toList then some tab
    else if extension = "csv".toList then some comma
    else none

end ResumableCsv.Path
