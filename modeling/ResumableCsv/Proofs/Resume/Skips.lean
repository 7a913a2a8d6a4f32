import ResumableCsv.Proofs.RangeSet
import ResumableCsv.Proofs.Text.Numeral
import ResumableCsv.Resume.Resumer

/-!
Resumers that go by the position of a row alone: which positions they skip, and how they learn that
from the rows of an output, be it from their indices or from their number.
-/

namespace ResumableCsv

theorem ResumableOutput.path_tellAll (event : ResumeEvent) (rows : List Row)
    (output : ResumableOutput) : (output.tellAll event rows).path = output.path := by
  induction rows generalizing output with
  | nil => rfl
  | cons row rest ih => exact ih (output.tell event row)

theorem Outcome.untilFailure_map_ok {ε α : Type} (values : List α) :
    untilFailure (values.map (Except.ok : α → Except ε α)) = (values, .ok ()) := by
  induction values with
  | nil => rfl
  | cons value rest ih => rw [List.map_cons, untilFailure, ih]

theorem Outcome.untilFailure_of_error {ε α : Type} (values : List α) (error : ε)
    (items : List (Except ε α)) :
    untilFailure (values.map Except.ok ++ .error error :: items) = (values, .error error) := by
  induction values with
  | nil => rfl
  | cons value rest ih => rw [List.map_cons, List.cons_append, untilFailure, ih]

namespace IndexedResumer

/-- Rows whose indices can be read are all looked at, and their indices are collected. -/
theorem collect_of_read {column : Nat} {rows : List Row} {indices : List Nat}
    (read : rows.map (fun row => Text.readCounter? (row.cell column).toList) = indices.map some)
    (number : Nat) (done : RangeSet) :
    collect column number done (rows.map .ok) =
      (rows, .ok ((indices.map UInt64.ofNat).foldl (fun set value => (set.add value).2) done)) := by
  induction rows generalizing indices number done with
  | nil =>
    have nothing : indices = [] := List.map_eq_nil_iff.mp read.symm
    simp [nothing, collect]
  | cons row rows ih =>
    cases indices with
    | nil => simp at read
    | cons index indices =>
      obtain ⟨head, tail⟩ := List.cons.inj read
      have head : Text.readCounter? (row.cell column).toList = some index := head
      have later := ih tail (number + 1) (done.add (UInt64.ofNat index)).2
      simp only [List.map_cons, collect, head, later, List.foldl_cons]

/-- What cannot be collected behind some rows cannot be collected together with them. -/
theorem collect_append_error {column : Nat} {items : List (Except Error Row)}
    (fails : ∀ number done, ∃ error, (collect column number done items).2 = .error error)
    (rows : List Row) (number : Nat) (done : RangeSet) :
    ∃ error, (collect column number done (rows.map .ok ++ items)).2 = .error error := by
  induction rows generalizing number done with
  | nil => exact fails number done
  | cons row rows ih =>
    rw [List.map_cons, List.cons_append, collect]
    split
    next => exact ⟨_, rfl⟩
    next index _ => exact ih (number + 1) (done.add (UInt64.ofNat index)).2

end IndexedResumer

/-- An output that passes the header check and is read to its end is counted, and each of its rows
is told. -/
theorem RowCountResumer.inspect_of_rows {context : OutputContext} {defaults : Defaults}
    {work : Workspace} {resumer : RowCountResumer} {reader : Reader} {rows : List Row}
    (checked : context.checkHeader resumer.output.path defaults work = .ok ())
    (opened : (context.readerOptions defaults).openPath resumer.output.path work = .ok reader)
    (sound : reader.rows = rows.map .ok) :
    resumer.inspect context defaults work =
      (.ok (),
        { output := resumer.output.tellAll .outputRowRead rows, rowCount := rows.length }) := by
  simp only [inspect, checked, opened, Outcome.ok_bind, sound, Outcome.untilFailure_map_ok]

namespace Resumer

/-- From the row at `index` on, up to the last of `total` rows, just the done ones are skipped. -/
def Skips (done : Nat → Bool) (index total : Nat) : Resumer → Prop
  | .indexed resumer =>
    ∀ position, position < total → resumer.done.contains (UInt64.ofNat position) = done position
  | .rowCount resumer =>
    resumer.rowCount ≤ total ∧ resumer.skipped = min index resumer.rowCount ∧
      ∀ position, done position = decide (position < resumer.rowCount)
  | _ => False

variable {done : Nat → Bool} {index total : Nat} {resumer : Resumer}

theorem filter_of_skips (skips : resumer.Skips done index total) (inside : index < total)
    (row : Row) (work : Workspace) :
    ∃ later, resumer.filter index row work =
        (.ok (if done index then .skip else .offer none), later, work) ∧
      later.Skips done (index + 1) total := by
  cases resumer with
  | indexed resumer =>
    have known := skips index inside
    cases found : done index with
    | true =>
      rw [found] at known
      exact ⟨.indexed { resumer with output := resumer.output.tell .inputRowSkipped row },
        by simp [filter, IndexedResumer.filter, known, verdict], skips⟩
    | false =>
      rw [found] at known
      exact ⟨.indexed resumer, by simp [filter, IndexedResumer.filter, known, verdict], skips⟩
  | rowCount resumer =>
    obtain ⟨fits, skipped, known⟩ := skips
    by_cases behind : resumer.rowCount ≤ index
    · have all : resumer.rowCount ≤ resumer.skipped := by omega
      refine ⟨.rowCount resumer, ?_, fits, by omega, known⟩
      simp [filter, RowCountResumer.filter, all, verdict, known, behind]
    · have some_left : ¬resumer.rowCount ≤ resumer.skipped := by omega
      have before : index < resumer.rowCount := by omega
      refine ⟨.rowCount
        { resumer with
          skipped := resumer.skipped + 1
          output := resumer.output.tell .inputRowSkipped row }, ?_, fits, ?_, known⟩
      · simp [filter, RowCountResumer.filter, some_left, verdict, known, before]
      · simp only
        omega
  | _ => exact skips.elim

/-- Nothing is objected to once every row has been seen. -/
theorem finish_of_skips (skips : resumer.Skips done total total) : resumer.finish = .ok () := by
  cases resumer with
  | indexed resumer => rfl
  | rowCount resumer =>
    obtain ⟨fits, skipped, _⟩ := skips
    have all : ¬resumer.skipped < resumer.rowCount := by omega
    simp [finish, RowCountResumer.finish, all]
  | _ => exact skips.elim

end Resumer

end ResumableCsv
