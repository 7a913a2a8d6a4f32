import ResumableCsv.Cell.Value
import ResumableCsv.Proofs.Writer.Records

/-!
Writers in use: whatever a caller asks for, and whatever of it is refused, the bytes that come of it
are read back as the rows that went through.
-/

namespace ResumableCsv.Writer

/-- What a caller can ask a writer to write. -/
inductive Call
  | header
  | row (cells : Row)
  | concat (parts : List Row)
  | record (kind : RecordType) (values : List CellValue)

namespace Call

def isHeader : Call → Bool
  | .header => true
  | _ => false

/-- The cells that are asked for; the header row has the names that were declared. -/
def cells (fieldnames : Option (List String)) : Call → Row
  | .header => fieldnames.getD []
  | .row cells => cells
  | .concat parts => parts.flatten
  | .record kind values => kind.row values

/-- A row that is asked for has a cell. -/
def Filled (call : Call) : Prop := call.isHeader = false → ∀ names, call.cells names ≠ []

def run (call : Call) (writer : Writer) (work : Workspace) :
    Except Error Unit × Writer × Workspace :=
  match call with
  | .header => writer.writeHeader work
  | .row cells => writer.writeRow cells work
  | .concat parts => writer.writeConcat parts work
  | .record kind values => writer.writeRow (kind.row values) work

end Call

/-- A writer in use, with the calls that went through so far. -/
structure Use where
  writer : Writer
  work : Workspace
  accepted : List Call := []

namespace Use

def call (use : Use) (call : Call) : Use :=
  match call.run use.writer use.work with
  | (.ok (), writer, work) => ⟨writer, work, use.accepted ++ [call]⟩
  | (.error _, writer, work) => { use with writer, work }

def calls (use : Use) (calls : List Call) : Use := calls.foldl Use.call use

end Use

variable {writer next : Writer} {work rest : Workspace} {before : Bytes} {records : List Row}
  {cells : Row}

/-- A call that goes through puts its cells behind the others. -/
theorem Carries.run_ok {call : Call} (carries : writer.Carries work before records)
    (went : call.run writer work = (.ok (), next, rest)) :
    next.Carries rest before (records ++ [writer.nuls.stored (call.cells writer.fieldnames)]) ∧
      next.settings = writer.settings ∧
      next.rowsWritten = writer.rowsWritten + (if call.isHeader then 0 else 1) ∧
      (call.isHeader = true → writer.fieldnames.isSome = true) := by
  cases call with
  | header =>
    simp only [Call.run, writeHeader] at went
    cases declared : writer.fieldnames with
    | none =>
      rw [declared] at went
      cases went
    | some names =>
      rw [declared] at went
      obtain ⟨later, settings, count, _⟩ := carries.emit_ok went
      exact ⟨later, settings, count, fun _ => rfl⟩
  | row _ | concat _ | record _ _ =>
    obtain ⟨later, settings, count⟩ := carries.writeRow_ok went
    exact ⟨later, settings, count, fun header => by cases header⟩

/-- A call is refused when there are no names for a header row, or its row is. -/
theorem emit_of_run_error {call : Call} {error : Error}
    (refused : call.run writer work = (.error error, next, rest)) :
    (error = .headersRequired .writeHeader ∧ next = writer ∧ rest = work) ∨
      writer.emit (call.cells writer.fieldnames) work = (.error error, next, rest) := by
  cases call with
  | header =>
    simp only [Call.run, writeHeader] at refused
    cases names : writer.fieldnames with
    | none =>
      rw [names] at refused
      cases refused
      exact .inl ⟨rfl, rfl, rfl⟩
    | some header =>
      rw [names] at refused
      exact .inr refused
  | row _ | concat _ | record _ _ => exact .inr (emit_of_writeRow_error refused)

/-- A call that fails leaves everything written as it was. -/
theorem Carries.run_error {call : Call} {error : Error}
    (carries : writer.Carries work before records)
    (failed : call.run writer work = (.error error, next, rest)) :
    next.Carries rest before records ∧ next.settings = writer.settings ∧
      next.rowsWritten = writer.rowsWritten := by
  rcases emit_of_run_error failed with ⟨_, rfl, rfl⟩ | emitted
  · exact ⟨carries, rfl, rfl⟩
  · obtain ⟨rfl, same⟩ := carries.emit_error emitted
    exact same

namespace Use

/-- The rows that went through, behind the header row where that is written without being asked
for. -/
def rows (use : Use) (withHeader : Bool) : List Row :=
  (if withHeader then use.writer.fieldnames.toList else []) ++
    use.accepted.map (Call.cells use.writer.fieldnames)

/-- Whether the header row is the first of these rows. -/
def headed (use : Use) (withHeader : Bool) : Bool :=
  withHeader && use.writer.fieldnames.isSome || use.accepted.head?.any Call.isHeader

/-- The output holds the rows that went through, and the calls for rows are counted. -/
structure Sound (use : Use) (start : Settings) (before : Bytes) (withHeader : Bool) : Prop where
  settings_eq : use.writer.settings = start
  carries : use.writer.Carries use.work before ((use.rows withHeader).map use.writer.nuls.stored)
  counted : use.writer.rowsWritten = use.accepted.countP (!·.isHeader)
  announced : ∀ call ∈ use.accepted, call.isHeader = true → use.writer.fieldnames.isSome = true
  filled : ∀ call ∈ use.accepted, call.Filled

variable {use : Use} {start : Settings} {withHeader : Bool}

theorem Sound.call (sound : use.Sound start before withHeader) {call : Call}
    (filled : call.Filled) : (use.call call).Sound start before withHeader := by
  rcases step : call.run use.writer use.work with ⟨error | _, writer, work⟩
  · obtain ⟨carries, settings, count⟩ := sound.carries.run_error step
    have nuls : writer.nuls = use.writer.nuls := congrArg Settings.nuls settings
    have names : writer.fieldnames = use.writer.fieldnames := congrArg Settings.fieldnames settings
    have same : use.call call = { use with writer, work } := by rw [Use.call, step]
    rw [same]
    refine ⟨settings.trans sound.settings_eq, ?_, count.trans sound.counted, ?_, sound.filled⟩
    · simpa only [rows, nuls, names] using carries
    · simpa only [names] using sound.announced
  · obtain ⟨carries, settings, count, announced⟩ := sound.carries.run_ok step
    have nuls : writer.nuls = use.writer.nuls := congrArg Settings.nuls settings
    have names : writer.fieldnames = use.writer.fieldnames := congrArg Settings.fieldnames settings
    have same : use.call call = ⟨writer, work, use.accepted ++ [call]⟩ := by rw [Use.call, step]
    rw [same]
    refine ⟨settings.trans sound.settings_eq, ?_, ?_, ?_, ?_⟩
    · simpa only [rows, nuls, names, List.map_append, List.map_singleton, List.append_assoc]
        using carries
    · rw [count, sound.counted, List.countP_append, List.countP_singleton]
      cases call.isHeader <;> rfl
    · simp only [names]
      exact List.forall_mem_append.mpr ⟨sound.announced, by simpa using announced⟩
    · exact List.forall_mem_append.mpr ⟨sound.filled, by simpa using filled⟩

theorem Sound.calls (sound : use.Sound start before withHeader) {calls : List Call}
    (filled : ∀ call ∈ calls, call.Filled) : (use.calls calls).Sound start before withHeader := by
  induction calls generalizing use with
  | nil => exact sound
  | cons call calls ih =>
    obtain ⟨here, later⟩ := List.forall_mem_cons.mp filled
    exact ih (sound.call here) later

/-- All rows that went through have a cell. -/
theorem Sound.filled_rows (sound : use.Sound start before withHeader)
    (named : ∀ names ∈ use.writer.fieldnames, names ≠ []) :
    ∀ row ∈ use.rows withHeader, row ≠ [] := by
  intro row member
  rcases List.mem_append.mp member with header | called
  · cases withHeader with
    | false => simp at header
    | true => exact named row (Option.mem_toList.mp header)
  · obtain ⟨call, there, rfl⟩ := List.mem_map.mp called
    cases header : call.isHeader with
    | false => exact sound.filled call there header _
    | true =>
      obtain ⟨names, declared⟩ := Option.isSome_iff_exists.mp (sound.announced call there header)
      cases call with
      | header =>
        simp only [Call.cells, declared, Option.getD_some]
        exact named names declared
      | _ => cases header

/-- The records of a use can be read back. -/
theorem Sound.legible (sound : use.Sound start before withHeader)
    (named : ∀ names ∈ use.writer.fieldnames, names ≠ []) {first : Row} {others : List Row}
    (records : (use.rows withHeader).map use.writer.nuls.stored = first :: others)
    (unmarked : ∀ cell ∈ first.head?, ¬Text.StartsWithMark cell) :
    Legible first.length (first :: others) := by
  have even := sound.carries.even
  rw [records] at even
  have settled := even first (by simp)
  refine ⟨?_, ?_, by simpa using unmarked⟩
  · obtain ⟨row, member, rfl⟩ := List.mem_map.mp (records ▸ List.mem_cons_self : first ∈ _)
    exact List.length_pos_iff.mpr
      (NulPolicy.stored_ne_nil (sound.filled_rows named row member) use.writer.nuls)
  · intro row member
    have same := (even row member).symm.trans settled
    exact Option.some.inj same

end Use

end ResumableCsv.Writer
