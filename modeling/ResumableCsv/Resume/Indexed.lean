import ResumableCsv.RangeSet
import ResumableCsv.Resume.Context
import ResumableCsv.Resume.Output
import ResumableCsv.Text.Numeral

/-!
Resuming by index: every output row tells which input row it stands for, in whatever order they were
written, and those input rows are skipped.
-/

namespace ResumableCsv

structure IndexedResumer where
  output : ResumableOutput
  done : RangeSet := .empty

namespace IndexedResumer

/-- Collects the indices of rows that are numbered from `number` on, and the rows looked at. -/
def collect (column : Nat) (number : Nat) (done : RangeSet) :
    List (Except Error Row) → List Row × Except Error RangeSet
  | [] => ([], .ok done)
  | .error error :: _ => ([], .error error)
  | .ok row :: rest =>
    match Text.readCounter? (row.cell column).toList with
    | none => ([row], .error (.corruptedIndexColumn (row.cell column) number))
    | some index =>
      let (seen, outcome) := collect column (number + 1) (done.add (UInt64.ofNat index)).2 rest
      (row :: seen, outcome)

/-- Reads the indices of the output; each row is told, also one whose index is unreadable. -/
def inspect (context : OutputContext) (defaults : Defaults) (work : Workspace)
    (resumer : IndexedResumer) : Except Error Unit × IndexedResumer :=
  let path := resumer.output.path
  let opened := do
    context.checkHeader path defaults work
    match context.indexColumn with
    | none => .error (.invalidConfiguration .noIndexColumn)
    | some column => pure (column, ← (context.readerOptions defaults).openPath path work)
  match opened with
  | .error error => (.error error, resumer)
  | .ok (column, reader) =>
    let (rows, outcome) := collect column 0 .empty reader.rows
    let told := { resumer with output := resumer.output.tellAll .outputRowRead rows }
    match outcome with
    | .error error => (.error error, told)
    | .ok done => (.ok (), { told with done := done })

/-- Whether the input row at an index is written already. -/
def filter (index : Nat) (row : Row) (resumer : IndexedResumer) : Bool × IndexedResumer :=
  if resumer.done.contains (UInt64.ofNat index) then
    (true, { resumer with output := resumer.output.tell .inputRowSkipped row })
  else (false, resumer)

end IndexedResumer

end ResumableCsv
