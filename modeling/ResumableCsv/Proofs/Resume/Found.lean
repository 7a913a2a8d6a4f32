import ResumableCsv.Proofs.Reader.Built
import ResumableCsv.Proofs.Reader.Prebuffered
import ResumableCsv.Proofs.Resume.Skips
import ResumableCsv.Proofs.Resume.Table

/-!
Outputs as they are found: the header row that is due, where one is, and the rows behind it. Such an
output passes the header check, which takes the header for a row like any other, and it is read and
counted without the header.
-/

namespace ResumableCsv

namespace Reader

variable {reader bare : Reader} {options : ReaderOptions} {source : Source} {delimiter : UInt8}
  {first : Row} {others : List Row}

/-- Where nothing is split, every item of the source is one item. -/
theorem divide_of_unsplit (unsplit : reader.split = none) (item : Except Error Row) :
    reader.divide item = [item.bind reader.check] := by
  cases checked : item.bind reader.check with
  | error error => exact divide_of_error checked
  | ok row =>
    rw [divide_of_ok checked, splitRow, unsplit]
    rfl

/-- Rows that are read without a header row are read with one too, but for the first of them. -/
theorem exists_headed (unsplit : options.multiplex = none)
    (opened : build { options with noHeaders := true } source delimiter = .ok bare)
    (sound : bare.rows = (first :: others).map .ok) :
    ∃ headed, build { options with noHeaders := false } source delimiter = .ok headed ∧
      headed.rows = others.map .ok := by
  obtain ⟨names, rest, step, _, length, policy⟩ := shape_of_build (by simp [unsplit]) opened
  have single : bare.split = none := split_of_build (by exact unsplit) opened
  let base := ofFirstRow { options with noHeaders := false } names rest delimiter
  have same : base.divide = bare.divide := by
    funext item
    have check : base.check = bare.check := by
      funext row
      simp only [Reader.check, length, policy]
      rfl
    rw [divide_of_unsplit (by rfl), divide_of_unsplit single, check]
  have items : bare.divide (.ok names) ++ rest.items.flatMap bare.divide =
      .ok first :: others.map .ok := by
    rw [← List.flatMap_cons, ← Source.items_of_row step, ← List.map_cons]
    exact (items_of_build opened).symm.trans
      (eq_map_ok_of_untilError ((rows_eq_untilError bare).symm.trans sound))
  rw [divide_of_unsplit single, List.singleton_append] at items
  have coming : base.coming = others.map .ok := by
    calc base.coming
      _ = rest.items.flatMap base.divide := rfl
      _ = others.map .ok := by rw [same, (List.cons.inj items).2]
  obtain ⟨headed, finished, rows⟩ :=
    finish_of_coming (fresh_ofFirstRow _ names rest delimiter) coming options.prebuffer
  refine ⟨headed, ?_, rows⟩
  rw [build_of_first step, unsplit]
  exact finished

end Reader

namespace OutputContext

variable {context : OutputContext} {path : String} {defaults : Defaults} {work : Workspace}
  {written : List Row}

/-- A file is read to its end without an error, and shows the header row of the context, if there is
one, and these rows behind it. -/
def Finds (context : OutputContext) (path : String) (defaults : Defaults) (work : Workspace)
    (written : List Row) : Prop :=
  ∃ bare, { context.readerOptions defaults with noHeaders := true }.openPath path work = .ok bare ∧
    bare.rows = (context.fieldnames.toList ++ written).map .ok

/-- A written table is found as it was written. -/
theorem finds_of_table (kept : defaults.readNuls = .keep) (proper : context.dialect.Proper)
    (named : Workspace.Plain path) {length : Nat}
    (legible : Legible length (context.fieldnames.toList ++ written))
    (some_row : context.fieldnames.toList ++ written ≠ [])
    (held : work.file? path =
      some (tableText context.dialect (context.fieldnames.toList ++ written))) :
    context.Finds path defaults work written := by
  obtain ⟨first, rows, table⟩ := List.exists_cons_of_ne_nil some_row
  rw [table] at legible held
  have plain : ReaderOptions.Plain { context.readerOptions defaults with noHeaders := true }
      context.dialect := ⟨rfl, kept, rfl, rfl, rfl⟩
  obtain ⟨bare, opened, shows⟩ :=
    ReaderOptions.openPath_of_table plain proper legible named held
  refine ⟨bare, opened, ?_⟩
  rw [shows.rows_eq, table]
  rfl

theorem Finds.checkHeader_eq (finds : context.Finds path defaults work written) :
    context.checkHeader path defaults work = .ok () := by
  obtain ⟨bare, opened, rows⟩ := finds
  cases declared : context.fieldnames with
  | none => simp only [checkHeader, declared]
  | some names =>
    rw [Reader.rows_eq_untilError] at rows
    have items : bare.items = .ok names :: written.map .ok := by
      simpa [declared] using Reader.eq_map_ok_of_untilError rows
    obtain ⟨rest, looked, _⟩ := Reader.peek_of_items_cons items
    rw [checkHeader_of_peek declared opened (by rw [looked]; rfl), if_pos rfl]

/-- Behind the header row the rows are read as they were found. -/
theorem Finds.openPath_eq (finds : context.Finds path defaults work written) :
    ∃ reader, (context.readerOptions defaults).openPath path work = .ok reader ∧
      reader.rows = written.map .ok := by
  obtain ⟨bare, opened, rows⟩ := finds
  cases declared : context.fieldnames with
  | none =>
    have headless : context.readerOptions defaults =
        { context.readerOptions defaults with noHeaders := true } := by
      simp [readerOptions, hasHeaders, declared]
    rw [headless]
    exact ⟨bare, opened, by simpa [declared] using rows⟩
  | some names =>
    have headed : context.readerOptions defaults =
        { context.readerOptions defaults with noHeaders := false } := by
      simp [readerOptions, hasHeaders, declared]
    have opened : ReaderOptions.openOn { context.readerOptions defaults with noHeaders := true }
        (.path path work) = .ok bare := opened
    obtain ⟨source, delimiter, reached, built⟩ := ReaderOptions.openOn_eq_ok_iff.mp opened
    rw [declared] at rows
    obtain ⟨reader, readable, behind⟩ := Reader.exists_headed (by rfl) built rows
    have again : ReaderOptions.openOn { context.readerOptions defaults with noHeaders := false }
        (.path path work) = .ok reader :=
      ReaderOptions.openOn_eq_ok_iff.mpr ⟨source, delimiter, reached, readable⟩
    rw [headed]
    exact ⟨reader, again, behind⟩

/-- Such an output is counted, and each row is told as it is read. -/
theorem Finds.inspect_eq {resumer : RowCountResumer}
    (finds : context.Finds resumer.output.path defaults work written) :
    resumer.inspect context defaults work =
      (.ok (),
        { output := resumer.output.tellAll .outputRowRead written, rowCount := written.length }) := by
  obtain ⟨reader, opened, rows⟩ := finds.openPath_eq
  exact RowCountResumer.inspect_of_rows finds.checkHeader_eq opened rows

end OutputContext

end ResumableCsv
