import ResumableCsv.CommandLine.Program

/-!
The program's entry point. It gathers the files a command names and the standard input into a
workspace, runs the command on it, and puts what has changed back in place.
-/

namespace ResumableCsv.CommandLine

/-- The content of a file, or of nothing where there is no file to read. -/
def readFile? (path : String) : IO (Option Bytes) := do
  try
    let content ← IO.FS.readBinFile path
    pure (some content.data.toList)
  catch _ => pure none

def isFolder (path : String) : IO Bool := do
  let place := (← IO.currentDir) / path
  place.isDir

def gatherFile (work : Workspace) (path : String) : IO Workspace := do
  let work ←
    match ← readFile? path with
    | some content => pure (work.put path content)
    | none => pure work
  let folders ← [Path.normal path, Path.parent path].filterM isFolder
  pure { work with folders := folders ++ work.folders }

def gather (paths : List String) : IO Workspace := do
  let stdin ←
    if paths.any Path.isConsole then (← IO.getStdin).readBinToEnd else pure ByteArray.empty
  paths.foldlM gatherFile { stdin := stdin.data.toList }

def putBack (before after : Workspace) (paths : List String) : IO Unit := do
  for path in paths do
    match after.file? path with
    | some content =>
      if before.file? path ≠ some content then
        IO.FS.writeBinFile path ⟨content.toArray⟩
    | none => pure ()

end ResumableCsv.CommandLine

open ResumableCsv CommandLine in
def main (arguments : List String) : IO UInt32 := do
  let paths := ((Command.parse arguments).toOption.map Command.paths).getD []
  let work ← gather paths
  let (exit, left) := runProgram arguments work
  putBack work left paths
  let output ← IO.getStdout
  output.write ⟨left.stdout.toArray⟩
  output.flush
  match exit.complaint with
  | some complaint => IO.eprint complaint
  | none => pure ()
  pure exit.code.toUInt32
