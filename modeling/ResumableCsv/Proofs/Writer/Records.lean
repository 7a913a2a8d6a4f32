import ResumableCsv.Proofs.Reader.Build
import ResumableCsv.Proofs.Resume.Table

/-!
Records as they are stored: a writer under any NUL policy puts the text of a table behind what its
output held, and all rows of that table have the length the writer has settled on. A call that is
refused leaves the output alone.
-/

namespace ResumableCsv

namespace NulPolicy

/-- A row as it is stored, if it is let through. -/
def stored (policy : NulPolicy) (row : Row) : Row :=
  if policy = .strip then row.map stripCell else row

variable {policy : NulPolicy} {row kept : Row}

theorem length_stored (policy : NulPolicy) (row : Row) :
    (policy.stored row).length = row.length := by
  unfold stored
  split <;> simp

theorem stored_ne_nil (filled : row ≠ []) (policy : NulPolicy) : policy.stored row ≠ [] := by
  rw [← List.length_pos_iff, length_stored]
  exact List.length_pos_iff.mpr filled

theorem eq_stored_of_apply (passed : policy.apply row = .ok kept) : kept = policy.stored row := by
  cases policy with
  | keep | strip => exact (Except.ok.inj passed).symm
  | reject =>
    simp only [apply] at passed
    split at passed
    · cases passed
    · exact (Except.ok.inj passed).symm

theorem nulByte_of_apply {error : Error} (refused : policy.apply row = .error error) :
    ∃ column, error = .nulByte column := by
  cases policy with
  | keep | strip => cases refused
  | reject =>
    simp only [apply] at refused
    split at refused <;> cases refused
    exact ⟨_, rfl⟩

/-- A row that is let through under rejection has no NUL. -/
theorem firstNul?_of_apply (passed : reject.apply row = .ok kept) : firstNul? kept = none := by
  simp only [apply] at passed
  split at passed
  · cases passed
  next clean =>
    cases passed
    exact clean

end NulPolicy

namespace Writer

/-- What stays the same of a writer, whatever it writes. -/
structure Settings where
  dialect : Dialect
  fieldnames : Option (List String)
  nuls : NulPolicy
  sink : Sink

def settings (writer : Writer) : Settings :=
  ⟨writer.dialect, writer.fieldnames, writer.nuls, writer.output.sink.emptied⟩

/-- A row that is neither too long nor too short, and not refused for a NUL. -/
structure Accepts (writer : Writer) (cells : Row) : Prop where
  fits : ∀ length ∈ writer.rowLength, cells.length = length
  passes : writer.nuls.apply cells = .ok (writer.nuls.stored cells)

/-- A writer that has put these records behind the `before` of its output. -/
structure Carries (writer : Writer) (work : Workspace) (before : Bytes) (records : List Row) :
    Prop where
  ready : writer.output.sink.Ready work
  text_eq : writer.output.text work = before ++ tableText writer.dialect records
  even : ∀ row ∈ records, writer.rowLength = some row.length
  clean : writer.nuls = .reject → ∀ row ∈ records, NulPolicy.firstNul? row = none

variable {writer next : Writer} {work rest : Workspace} {before : Bytes} {records : List Row}
  {cells : Row}

/-- Only the length and the NULs of a row decide whether it is written. -/
theorem emit_of_accepts (accepts : writer.Accepts cells) :
    writer.emit cells work =
      (.ok (),
        { writer with
          rowLength := some cells.length
          output := (writer.output.pushAll
            (Record.pieces writer.dialect ((writer.nuls.stored cells).map Text.bytes)) work).1 },
        (writer.output.pushAll
          (Record.pieces writer.dialect ((writer.nuls.stored cells).map Text.bytes)) work).2) := by
  have settled : writer.rowLength.getD cells.length = cells.length := by
    cases declared : writer.rowLength with
    | none => rfl
    | some length => exact (accepts.fits length declared).symm
  simp [emit, settled, accepts.passes]

theorem emit_of_not_accepts (refused : ¬writer.Accepts cells) (work : Workspace) :
    ∃ error length, writer.emit cells work =
        (.error error, { writer with rowLength := length }, work) ∧
      ∀ settled ∈ writer.rowLength, length = some settled := by
  by_cases fits : cells.length = writer.rowLength.getD cells.length
  · cases passed : writer.nuls.apply cells with
    | ok kept =>
      refine absurd ⟨?_, NulPolicy.eq_stored_of_apply passed ▸ passed⟩ refused
      intro length declared
      rwa [declared, Option.getD_some] at fits
    | error error =>
      refine ⟨error, some (writer.rowLength.getD cells.length), by simp [emit, ← fits, passed], ?_⟩
      intro settled declared
      rw [declared, Option.getD_some]
  · refine ⟨.rowLengthMismatch (writer.rowLength.getD cells.length) cells.length, writer.rowLength,
      by simp [emit, fits], fun _ declared => declared⟩

/-- A row that was accepted stands behind the others, as it is stored. -/
theorem Carries.emit_ok (carries : writer.Carries work before records)
    (written : writer.emit cells work = (.ok (), next, rest)) :
    next.Carries rest before (records ++ [writer.nuls.stored cells]) ∧
      next.settings = writer.settings ∧ next.rowsWritten = writer.rowsWritten ∧
      ∀ length ∈ writer.rowLength, next.rowLength = some length := by
  by_cases accepts : writer.Accepts cells
  · rw [emit_of_accepts accepts] at written
    obtain ⟨text, ready, sink⟩ := Output.text_pushAll carries.ready
      (Record.pieces writer.dialect ((writer.nuls.stored cells).map Text.bytes))
    cases written
    refine ⟨⟨ready, ?_, ?_, ?_⟩, ?_, rfl, fun length settled =>
      congrArg some (accepts.fits length settled)⟩
    · rw [text, carries.text_eq, List.append_assoc, tableText_concat]
      rfl
    · intro row member
      rcases List.mem_append.mp member with old | new
      · exact congrArg some (accepts.fits _ (carries.even row old))
      · rw [List.mem_singleton.mp new, NulPolicy.length_stored]
    · intro rejects row member
      rcases List.mem_append.mp member with old | new
      · exact carries.clean rejects row old
      · have passed := accepts.passes
        rw [show writer.nuls = .reject from rejects] at passed new
        rw [List.mem_singleton.mp new]
        exact NulPolicy.firstNul?_of_apply passed
    · simp only [settings, sink]
  · obtain ⟨error, length, failed, _⟩ := emit_of_not_accepts accepts work
    rw [failed] at written
    cases written

/-- A row that was refused has left no trace in the output. -/
theorem Carries.emit_error (carries : writer.Carries work before records) {error : Error}
    (refused : writer.emit cells work = (.error error, next, rest)) :
    rest = work ∧ next.Carries work before records ∧ next.settings = writer.settings ∧
      next.rowsWritten = writer.rowsWritten := by
  by_cases accepts : writer.Accepts cells
  · rw [emit_of_accepts accepts] at refused
    cases refused
  · obtain ⟨error, length, failed, kept⟩ := emit_of_not_accepts accepts work
    rw [failed] at refused
    cases refused
    exact ⟨rfl, ⟨carries.ready, carries.text_eq,
      fun row member => kept _ (carries.even row member), carries.clean⟩, rfl, rfl⟩

/-- Of a row that was written only the count is more than what emitting it does. -/
theorem emit_of_writeRow_ok (written : writer.writeRow cells work = (.ok (), next, rest)) :
    ∃ emitted, writer.emit cells work = (.ok (), emitted, rest) ∧
      next = { emitted with rowsWritten := emitted.rowsWritten + 1 } := by
  unfold writeRow at written
  split at written
  next emitted work step =>
    cases written
    exact ⟨emitted, step, rfl⟩
  next failed =>
    exact absurd written (failed next rest)

theorem emit_of_writeRow_error {error : Error}
    (refused : writer.writeRow cells work = (.error error, next, rest)) :
    writer.emit cells work = (.error error, next, rest) := by
  unfold writeRow at refused
  split at refused
  · cases refused
  · exact refused

theorem Carries.writeRow_ok (carries : writer.Carries work before records)
    (written : writer.writeRow cells work = (.ok (), next, rest)) :
    next.Carries rest before (records ++ [writer.nuls.stored cells]) ∧
      next.settings = writer.settings ∧ next.rowsWritten = writer.rowsWritten + 1 := by
  obtain ⟨emitted, step, rfl⟩ := emit_of_writeRow_ok written
  obtain ⟨later, settings, count, _⟩ := carries.emit_ok step
  exact ⟨⟨later.ready, later.text_eq, later.even, later.clean⟩, settings, congrArg (· + 1) count⟩

theorem writeRow_of_accepts {length : Nat} (settled : writer.rowLength = some length)
    (accepts : writer.Accepts cells) (work : Workspace) :
    ∃ next rest, writer.writeRow cells work = (.ok (), next, rest) ∧
      next.rowLength = some length := by
  have fits : cells.length = length := accepts.fits length settled
  rw [writeRow, emit_of_accepts accepts]
  exact ⟨_, _, rfl, congrArg some fits⟩

theorem writeRow_of_not_accepts {length : Nat} (settled : writer.rowLength = some length)
    (refused : ¬writer.Accepts cells) (work : Workspace) :
    ∃ error, writer.writeRow cells work = (.error error, writer, work) := by
  obtain ⟨error, other, failed, kept⟩ := emit_of_not_accepts refused work
  refine ⟨error, ?_⟩
  rw [writeRow, failed, kept length settled, ← settled]

theorem Carries.flush (carries : writer.Carries work before records) :
    (writer.flush work).1.Carries (writer.flush work).2 before records ∧
      (writer.flush work).1.settings = writer.settings := by
  obtain ⟨same, still, sink⟩ := Output.text_flush carries.ready
  refine ⟨⟨still, same.trans carries.text_eq, carries.even, carries.clean⟩, ?_⟩
  simp only [settings, Writer.flush, sink]

/-- Letting go of a writer leaves its records in the file. -/
theorem Carries.close {path : String} (carries : writer.Carries work before records)
    (target : writer.output.sink.emptied = .file path) :
    (writer.close work).2.Holds path (before ++ tableText writer.dialect records) := by
  have named : writer.output.sink.path? = some path := by
    rw [← Sink.path?_emptied, target]
    rfl
  exact Output.Fills.close ⟨named, carries.ready, carries.text_eq⟩

/-- Before anything is written there are no records. -/
theorem carries_nil (ready : writer.output.sink.Ready work)
    (text : writer.output.text work = before) : writer.Carries work before [] :=
  ⟨ready, by simp [text, tableText], by simp, by simp⟩

end Writer

/-- A writer starts with its header row behind what its sink had received, or with nothing. -/
theorem WriterOptions.carries_of_build {options : WriterOptions} {sink : Sink} {work opened :
    Workspace} {writer : Writer} {withHeader : Bool} (ready : sink.Ready work)
    (built : options.build sink withHeader work = .ok (writer, opened)) :
    writer.Carries opened (sink.text work)
        ((if withHeader then writer.fieldnames.toList else []).map options.nuls.stored) ∧
      writer.dialect = ⟨options.delimiter, options.quote⟩ ∧ writer.nuls = options.nuls ∧
      writer.output.sink.emptied = sink.emptied ∧ writer.rowsWritten = 0 ∧
      ∃ length, options.shape = .ok (writer.fieldnames, length) ∧
        ∀ settled ∈ length, writer.rowLength = some settled := by
  obtain ⟨⟨fieldnames, length⟩, shape, _⟩ := Outcome.do_eq_ok_iff.mp built
  have start : (options.start sink fieldnames length).Carries work (sink.text work) [] :=
    Writer.carries_nil ready (List.append_nil _)
  cases fieldnames with
  | none =>
    rw [build_of_unheaded shape (by simp)] at built
    cases built
    refine ⟨?_, rfl, rfl, rfl, rfl, length, shape, fun _ same => same⟩
    have none_there : (options.start sink none length).fieldnames = none := rfl
    rw [none_there]
    cases withHeader <;> exact start
  | some names =>
    cases withHeader with
    | false =>
      rw [build_of_unheaded shape rfl] at built
      cases built
      exact ⟨start, rfl, rfl, rfl, rfl, length, shape, fun _ same => same⟩
    | true =>
      rw [build_of_headed shape rfl] at built
      rcases written : (options.start sink (some names) length).writeHeader work with
        ⟨error | _, next, rest⟩
      · rw [written] at built
        cases built
      · rw [written] at built
        cases built
        obtain ⟨carries, settings, count, kept⟩ := start.emit_ok written
        have fieldnames : writer.fieldnames = some names :=
          congrArg Writer.Settings.fieldnames settings
        rw [fieldnames]
        exact ⟨carries, congrArg Writer.Settings.dialect settings,
          congrArg Writer.Settings.nuls settings, congrArg Writer.Settings.sink settings, count,
          length, shape, kept⟩

namespace WriterOptions

def dialect (options : WriterOptions) : Dialect := ⟨options.delimiter, options.quote⟩

/-- A row that is written as one of this length. -/
structure Fits (options : WriterOptions) (length : Nat) (row : Row) : Prop where
  length_eq : row.length = length
  passes : options.nuls.apply row = .ok (options.nuls.stored row)

theorem fits_of_keep {options : WriterOptions} {length : Nat} {row : Row}
    (kept : options.nuls = .keep) (length_eq : row.length = length) : options.Fits length row :=
  ⟨length_eq, by rw [kept]; rfl⟩

/-- A writer with settled options that has put some records into a file, behind what was there. -/
structure Adds (options : WriterOptions) (writer : Writer) (work : Workspace) (path : String)
    (length : Nat) (before : Bytes) (records : List Row) : Prop where
  length_eq : writer.rowLength = some length
  dialect_eq : writer.dialect = options.dialect
  nuls_eq : writer.nuls = options.nuls
  target : writer.output.sink.emptied = .file path
  carries : writer.Carries work before records

section

variable {options : WriterOptions} {writer : Writer} {work opened : Workspace} {path : String}
  {length : Nat} {before : Bytes} {records rows : List Row}

theorem Adds.accepts_iff (adds : options.Adds writer work path length before records) {row : Row} :
    writer.Accepts row ↔ options.Fits length row := by
  constructor
  · intro accepts
    have passes := accepts.passes
    rw [adds.nuls_eq] at passes
    exact ⟨accepts.fits length adds.length_eq, passes⟩
  · intro fits
    refine ⟨?_, by rw [adds.nuls_eq]; exact fits.passes⟩
    intro settled same
    cases adds.length_eq.symm.trans same
    exact fits.length_eq

theorem adds_of_build {fieldnames : Option (List String)}
    (shape : options.shape = .ok (fieldnames, some length)) {withHeader : Bool}
    (holds : work.Holds path before)
    (built : options.build (.file path) withHeader work = .ok (writer, opened)) :
    options.Adds writer opened path length before
      ((if withHeader then fieldnames.toList else []).map options.nuls.stored) := by
  obtain ⟨carries, dialect, nuls, target, _, settled, same, length_eq⟩ :=
    carries_of_build (Sink.ready_of_holds rfl holds) built
  rw [shape] at same
  obtain ⟨fieldnames_eq, rfl⟩ := Prod.mk.inj (Except.ok.inj same)
  rw [← fieldnames_eq] at carries
  have text : (Sink.file path).text work = before := by simp [Sink.text, holds.held]
  rw [text] at carries
  exact ⟨length_eq length rfl, dialect, nuls, target, carries⟩

namespace Adds

variable (adds : options.Adds writer work path length before records) {row : Row}

include adds

theorem writeRow (fits : options.Fits length row) :
    ∃ next rest, writer.writeRow row work = (.ok (), next, rest) ∧
      options.Adds next rest path length before (records ++ [options.nuls.stored row]) := by
  obtain ⟨next, rest, written, length_eq⟩ :=
    Writer.writeRow_of_accepts adds.length_eq (adds.accepts_iff.mpr fits) work
  obtain ⟨carries, settings, _⟩ := adds.carries.writeRow_ok written
  rw [adds.nuls_eq] at carries
  exact ⟨next, rest, written, length_eq,
    (congrArg Writer.Settings.dialect settings).trans adds.dialect_eq,
    (congrArg Writer.Settings.nuls settings).trans adds.nuls_eq,
    (congrArg Writer.Settings.sink settings).trans adds.target, carries⟩

/-- A row that does not fit changes nothing. -/
theorem writeRow_refused (other : ¬options.Fits length row) :
    ∃ error, writer.writeRow row work = (.error error, writer, work) :=
  Writer.writeRow_of_not_accepts adds.length_eq (mt adds.accepts_iff.mp other) work

theorem flush :
    options.Adds (writer.flush work).1 (writer.flush work).2 path length before records := by
  obtain ⟨carries, settings⟩ := adds.carries.flush
  exact ⟨adds.length_eq, adds.dialect_eq, adds.nuls_eq,
    (congrArg Writer.Settings.sink settings).trans adds.target, carries⟩

/-- What was put behind something counts as there before, once it is done. -/
theorem settle :
    options.Adds writer work path length (before ++ tableText options.dialect records) [] := by
  have carries := adds.carries
  refine ⟨adds.length_eq, adds.dialect_eq, adds.nuls_eq, adds.target, ⟨carries.ready, ?_, ?_, ?_⟩⟩
  · rw [carries.text_eq, adds.dialect_eq]
    exact (List.append_nil _).symm
  · simp
  · simp

/-- Rows that fit are all written, and stand behind the others. -/
theorem writeRows (fit : ∀ row ∈ rows, options.Fits length row) :
    ∃ next rest, writer.writeRows rows work = (.ok (), next, rest) ∧
      options.Adds next rest path length before (records ++ rows.map options.nuls.stored) := by
  induction rows generalizing writer work records with
  | nil => exact ⟨writer, work, rfl, by simpa using adds⟩
  | cons row rows ih =>
    obtain ⟨here, later⟩ := List.forall_mem_cons.mp fit
    obtain ⟨next, rest, written, added⟩ := adds.writeRow here
    obtain ⟨last, lastWork, others, whole⟩ := ih added later
    refine ⟨last, lastWork, by simp only [Writer.writeRows, written, others], ?_⟩
    rw [List.map_cons, List.append_cons]
    exact whole

/-- Only rows that fit are all written. -/
theorem fits_of_writeRows (went : (writer.writeRows rows work).1 = .ok ()) :
    ∀ row ∈ rows, options.Fits length row := by
  induction rows generalizing writer work records with
  | nil => simp
  | cons row rows ih =>
    by_cases fits : options.Fits length row
    · obtain ⟨next, rest, written, added⟩ := adds.writeRow fits
      simp only [Writer.writeRows, written] at went
      exact List.forall_mem_cons.mpr ⟨fits, ih added went⟩
    · obtain ⟨error, refused⟩ := adds.writeRow_refused fits
      simp only [Writer.writeRows, refused] at went
      cases went

theorem close :
    (writer.close work).2.Holds path (before ++ tableText options.dialect records) := by
  rw [← adds.dialect_eq]
  exact adds.carries.close adds.target

end Adds

end

end WriterOptions

end ResumableCsv
