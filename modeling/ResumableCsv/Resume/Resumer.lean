import ResumableCsv.Resume.Indexed
import ResumableCsv.Resume.LastCell
import ResumableCsv.Resume.Paged
import ResumableCsv.Resume.RowCount
import ResumableCsv.Writer.Basic

/-!
The ways to continue an output, under one roof: each looks at the output before anything is added to
it, decides for every input row whether it is done, and may object at the end of the input.
-/

namespace ResumableCsv

inductive Resumer
  /-- Adds to the output and knows nothing of the input. -/
  | basic (output : ResumableOutput)
  | lastCell (resumer : LastCellResumer)
  | rowCount (resumer : RowCountResumer)
  | cellMatch (resumer : CellMatchResumer)
  | indexed (resumer : IndexedResumer)
  | batch (resumer : BatchResumer)

namespace Resumer

def output : Resumer → ResumableOutput
  | .basic output => output
  | .lastCell resumer => resumer.output
  | .rowCount resumer => resumer.output
  | .cellMatch resumer => resumer.output
  | .indexed resumer => resumer.output
  | .batch resumer => resumer.output

/-- Reads the existing output; what was learnt before a failure is kept. -/
def inspect (context : OutputContext) (defaults : Defaults) (work : Workspace) :
    Resumer → Except Error Unit × Resumer
  | .basic output => (context.checkHeader output.path defaults work, .basic output)
  | .lastCell resumer =>
    let (outcome, resumer) := resumer.inspect context defaults work
    (outcome, .lastCell resumer)
  | .rowCount resumer =>
    let (outcome, resumer) := resumer.inspect context defaults work
    (outcome, .rowCount resumer)
  | .cellMatch resumer =>
    let (outcome, resumer) := resumer.inspect context defaults work
    (outcome, .cellMatch resumer)
  | .indexed resumer =>
    let (outcome, resumer) := resumer.inspect context defaults work
    (outcome, .indexed resumer)
  | .batch resumer =>
    let (outcome, resumer) := resumer.inspect context defaults work
    (outcome, .batch resumer)

def verdict (skips : Bool) : Except Error Verdict := .ok (if skips then .skip else .offer none)

/-- Decides on the input row at an index. -/
def filter (index : Nat) (row : Row) (work : Workspace) :
    Resumer → Except Error Verdict × Resumer × Workspace
  | .basic output => (verdict false, .basic output, work)
  | .lastCell resumer => (verdict false, .lastCell resumer, work)
  | .rowCount resumer =>
    let (skips, resumer) := resumer.filter row
    (verdict skips, .rowCount resumer, work)
  | .cellMatch resumer =>
    let (skips, resumer) := resumer.filter row
    (verdict skips, .cellMatch resumer, work)
  | .indexed resumer =>
    let (skips, resumer) := resumer.filter index row
    (verdict skips, .indexed resumer, work)
  | .batch resumer =>
    let (outcome, resumer, work) := resumer.filter row work
    (outcome, .batch resumer, work)

/-- The last word, once the input is exhausted. -/
def finish : Resumer → Except Error Unit
  | .basic _ | .lastCell _ | .indexed _ => .ok ()
  | .rowCount resumer => resumer.finish
  | .cellMatch resumer => resumer.finish
  | .batch resumer => resumer.finish

end Resumer

namespace WriterOptions

def outputContext (options : WriterOptions) : Except Error OutputContext :=
  options.shape.map fun (fieldnames, _) => { fieldnames, delimiter := options.delimiter }

/-- Adds to an output that already holds rows, once the resumer has read it, and without a second
header; makes the output anew otherwise. -/
def resumeWith (options : WriterOptions) (context : OutputContext) (resumer : Resumer)
    (defaults : Defaults) (work : Workspace) : Except Error Writer × Resumer × Workspace :=
  let resuming := resumer.output.canResume work
  let (inspected, resumer) :=
    if resuming then resumer.inspect context defaults work else (.ok (), resumer)
  match inspected with
  | .error error => (.error error, resumer, work)
  | .ok () =>
    match resumer.output.openSink work with
    | .error error => (.error error, resumer, work)
    | .ok (sink, work) =>
      match options.build sink (options.writesHeader && !resuming) work with
      | .error error => (.error error, resumer, work)
      | .ok (writer, work) => (.ok writer, resumer, work)

def openResumed (options : WriterOptions) (resumer : Resumer) (defaults : Defaults)
    (work : Workspace) : Except Error Writer × Resumer × Workspace :=
  match options.outputContext with
  | .error error => (.error error, resumer, work)
  | .ok context => options.resumeWith context resumer defaults work

end WriterOptions

end ResumableCsv
