import ResumableCsv.CommandLine.Run

/-!
The program as a whole: a command line and a workspace give an exit code, a complaint, and the
workspace as it is left.
-/

namespace ResumableCsv.CommandLine

structure Exit where
  code : UInt8
  /-- What is told apart from the output, if anything. -/
  complaint : Option String := none
deriving DecidableEq, Repr

def versionText : String := "csv-enrich 0.3.0\n"

def helpText : String :=
  "Usage: csv-enrich <COMMAND> [OPTIONS]\n\nCommands: " ++
    ", ".intercalate (Command.forms.map Command.Form.name) ++ "\n"

/-- Runs the program with some character sets, by default with what all of them share. -/
def runProgram (arguments : List String) (work : Workspace)
    (charsets : String → Charset := fun _ => .shared) : Exit × Workspace :=
  match Command.parse arguments with
  | .error .usage => (⟨2, some helpText⟩, work)
  | .error .help => (⟨0, none⟩, work.print (Text.bytes helpText))
  | .error .version => (⟨0, none⟩, work.print (Text.bytes versionText))
  | .ok command =>
    match command.run {} work charsets with
    | (.ok (), work) => (⟨0, none⟩, work)
    | (.error failure, work) => (⟨1, some ("error: " ++ failure.message ++ "\n")⟩, work)

end ResumableCsv.CommandLine
