import ResumableCsv.Proofs.Resume.Skips

/-!
Resumers that have nothing left to object to. One that was just made is of that kind, and one that
has looked at an output becomes so before it changes anything in the files.
-/

namespace ResumableCsv

namespace Resumer

/-- A resumer of the input rows that has not looked at its output yet. -/
inductive Fresh : Resumer → Prop
  | rowCount (output : ResumableOutput) : Fresh (.rowCount { output })
  | cellMatch (output : ResumableOutput) (column : ColumnKey) :
      Fresh (.cellMatch { output, column })
  | indexed (output : ResumableOutput) : Fresh (.indexed { output })
  | batch (output : ResumableOutput) (valueColumn : ColumnKey) :
      Fresh (.batch { output, valueColumn })

/-- There is nothing it still waits for. -/
def Quiet : Resumer → Prop
  | .basic _ | .lastCell _ | .indexed _ => True
  | .rowCount resumer => resumer.rowCount = 0
  | .cellMatch resumer => resumer.reached = true
  | .batch resumer => resumer.searching = false

variable {resumer : Resumer} {index : Nat} {row : Row} {work : Workspace}

theorem Fresh.quiet (fresh : resumer.Fresh) : resumer.Quiet := by
  cases fresh <;> simp [Quiet]

theorem Quiet.finish (quiet : resumer.Quiet) : resumer.finish = .ok () := by
  cases resumer <;> simp_all [Quiet, Resumer.finish, RowCountResumer.finish,
    CellMatchResumer.finish, BatchResumer.finish]

theorem Quiet.filter (quiet : resumer.Quiet) (index : Nat) (row : Row) (work : Workspace) :
    (resumer.filter index row work).2.1.Quiet := by
  cases resumer with
  | basic | lastCell | indexed => trivial
  | rowCount resumer =>
    have settled : resumer.rowCount = 0 := quiet
    simp [Resumer.filter, RowCountResumer.filter, Quiet, settled]
  | cellMatch resumer =>
    have settled : resumer.reached = true := quiet
    simp [Resumer.filter, CellMatchResumer.filter, Quiet, settled]
  | batch resumer =>
    have settled : resumer.searching = false := quiet
    simp [Resumer.filter, BatchResumer.filter, Quiet, settled]

/-- A batch resumer gives up searching before it cuts anything off. -/
theorem quiet_of_cut {resumer : BatchResumer} (settled : resumer.searching = false) :
    (resumer.dropPartialPage work).2.searching = false := by
  unfold BatchResumer.dropPartialPage
  split <;> exact settled

/-- Deciding on a row leaves the files alone, or nothing is waited for any more. -/
theorem filter_keeps (resumer : Resumer) (index : Nat) (row : Row) (work : Workspace) :
    (resumer.filter index row work).2.2 = work ∨
      (resumer.filter index row work).2.1.Quiet := by
  cases resumer with
  | basic | lastCell | indexed | rowCount | cellMatch => exact .inl rfl
  | batch resumer =>
    have settled : ({ resumer with searching := false }.dropPartialPage work).2.searching = false :=
      quiet_of_cut rfl
    simp only [Resumer.filter, BatchResumer.filter]
    split
    · split
      · exact .inl rfl
      · split
        next step =>
          exact .inl rfl
        next step =>
          rw [step] at settled
          split <;> exact .inr settled
    · exact .inl rfl

theorem io_of_cut {resumer : BatchResumer} {error : Error}
    (failed : (resumer.dropPartialPage work).1 = .error error) : ∃ fault, error = .io fault := by
  unfold BatchResumer.dropPartialPage at failed
  split at failed
  · cases failed
  next offset _ =>
    cases resized : work.resize resumer.output.path offset with
    | ok later => simp [resized, Outcome.mapError_ok] at failed
    | error fault =>
      rw [resized] at failed
      exact ⟨fault, (Except.error.inj failed).symm⟩

/-- Deciding on a row fails only when the files fail. -/
theorem io_of_filter {error : Error} (failed : (resumer.filter index row work).1 = .error error) :
    ∃ fault, error = .io fault := by
  cases resumer with
  | basic | lastCell | indexed | rowCount | cellMatch =>
    simp [Resumer.filter, verdict] at failed
  | batch resumer =>
    simp only [Resumer.filter, BatchResumer.filter] at failed
    split at failed
    · split at failed
      · cases failed
      · split at failed
        next other cut step =>
          cases failed
          exact io_of_cut (congrArg Prod.fst step)
        next => split at failed <;> cases failed
    · cases failed

/-- A resumer that looks at its output goes on with the same one. -/
theorem path_inspect (resumer : Resumer) (context : OutputContext) (defaults : Defaults)
    (work : Workspace) :
    (resumer.inspect context defaults work).2.output.path = resumer.output.path := by
  cases resumer with
  | basic => rfl
  | lastCell resumer =>
    simp only [inspect, LastCellResumer.inspect]
    split <;> rfl
  | cellMatch resumer =>
    simp only [inspect, CellMatchResumer.inspect]
    split
    · rfl
    · split <;> rfl
  | rowCount resumer =>
    simp only [inspect, RowCountResumer.inspect]
    split
    · rfl
    · split <;> exact ResumableOutput.path_tellAll _ _ _
  | indexed resumer =>
    simp only [inspect, IndexedResumer.inspect]
    split
    · rfl
    · split <;> exact ResumableOutput.path_tellAll _ _ _
  | batch resumer =>
    simp only [inspect, BatchResumer.inspect]
    split
    · rfl
    · split
      · rfl
      · split
        · rfl
        · rfl
        · exact ResumableOutput.path_tellAll _ _ _

end Resumer

end ResumableCsv
