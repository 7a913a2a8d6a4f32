import ResumableCsv.Error
import ResumableCsv.Record.Scan
import ResumableCsv.Writer.Output

/-!
Outputs that a later run can continue, and the account of rows met on the way. An output is
continued when it holds a byte, behind a line feed that is put in if the last line lacks its own.
-/

namespace ResumableCsv

inductive ResumeEvent
  | outputRowRead
  | inputRowSkipped
deriving DecidableEq, Repr

def ResumeEvent.name : ResumeEvent → String
  | .outputRowRead => "output.row.read"
  | .inputRowSkipped => "input.row.filter"

/-- An output that is not compressed, so that more can be put behind it. -/
structure ResumableOutput where
  path : String
  /-- The events so far, latest first. -/
  log : List (ResumeEvent × Row) := []
  plain : Path.isGzip path = false
deriving DecidableEq

namespace ResumableOutput

def ofPath (path : String) : Except Error ResumableOutput :=
  if packed : Path.isGzip path = true then .error (.notResumable path)
  else .ok { path := path, plain := by simpa using packed }

/-- The events so far, in order. -/
def heard (output : ResumableOutput) : List (ResumeEvent × Row) := output.log.reverse

def tell (event : ResumeEvent) (row : Row) (output : ResumableOutput) : ResumableOutput :=
  { output with log := (event, row) :: output.log }

def tellAll (event : ResumeEvent) (rows : List Row) (output : ResumableOutput) :
    ResumableOutput :=
  rows.foldl (fun output row => output.tell event row) output

theorem heard_tell (event : ResumeEvent) (row : Row) (output : ResumableOutput) :
    (output.tell event row).heard = output.heard ++ [(event, row)] := by
  simp [tell, heard]

theorem heard_tellAll (event : ResumeEvent) (rows : List Row) (output : ResumableOutput) :
    (output.tellAll event rows).heard = output.heard ++ rows.map fun row => (event, row) := by
  induction rows generalizing output with
  | nil => simp [tellAll]
  | cons row rest ih =>
    have continued := ih (output.tell event row)
    rw [heard_tell] at continued
    simpa [tellAll] using continued

def canResume (output : ResumableOutput) (work : Workspace) : Bool := 0 < work.size output.path

/-- Opens the output behind its last line, or makes it anew when it holds nothing. -/
def openSink (output : ResumableOutput) (work : Workspace) :
    Except Error (Sink × Workspace) :=
  if output.canResume work then
    match (work.read output.path).mapError .io with
    | .error error => .error error
    | .ok content =>
      if content.getLast? = some Record.lineFeed then .ok (.file output.path, work)
      else .ok (.file output.path, work.append output.path [Record.lineFeed])
  else ((work.create output.path).mapError .io).map fun work => (.file output.path, work)

end ResumableOutput

end ResumableCsv
