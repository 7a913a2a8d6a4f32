import Mathlib.Data.List.DropRight
import ResumableCsv.Proofs.Backward.Finished
import ResumableCsv.Proofs.Backward.Twins

/-!
The last batch of a file as its open tail: the longest run of rows at the end that have the value of
the last row and no cursor. The batch holds just these rows, the offset is where the first of them
starts, and the row in front of them tells how far the value had come.
-/

namespace ResumableCsv

variable {columns : BatchColumns} {endSymbol value : String}
  {rows before opened passed earlier : List Row}

instance (columns : BatchColumns) (value : String) (row : Row) :
    Decidable (row.Open columns value) :=
  decidable_of_iff (row.cell columns.value = value ∧ row.cell columns.cursor = "")
    ⟨fun both => ⟨both.1, both.2⟩, fun both => ⟨both.value_eq, both.cursor_eq⟩⟩

/-- Open rows are split off the end of some rows in which the longest run of them is `opened`. -/
structure OpenTail (columns : BatchColumns) (value : String) (rows before opened : List Row) :
    Prop where
  split : rows = before ++ opened
  open_rows : ∀ row ∈ opened, row.Open columns value
  closed : ∀ row ∈ before.getLast?, ¬row.Open columns value

theorem exists_openTail (columns : BatchColumns) (value : String) (rows : List Row) :
    ∃ before opened, OpenTail columns value rows before opened := by
  let isOpen : Row → Bool := fun row => row.Open columns value
  refine ⟨rows.rdropWhile isOpen, rows.rtakeWhile isOpen,
    List.rdropWhile_append_rtakeWhile.symm, fun row member => ?_, fun row last => ?_⟩
  · have found : isOpen row = true := List.mem_rtakeWhile_imp member
    exact of_decide_eq_true found
  · obtain ⟨nonempty, rfl⟩ := List.mem_getLast?_eq_getLast last
    exact fun here => List.rdropWhile_last_not isOpen rows nonempty (decide_eq_true here)

/-- No run of open rows at the end is longer. -/
theorem OpenTail.suffix (tail : OpenTail columns value rows before opened) {others : List Row}
    (ends : others <:+ rows) (same : ∀ row ∈ others, row.Open columns value) :
    others <:+ opened := by
  have there : opened <:+ rows := ⟨before, tail.split.symm⟩
  rcases List.suffix_or_suffix_of_suffix ends there with shorter | ⟨more, rfl⟩
  · exact shorter
  · rcases List.eq_nil_or_concat more with rfl | ⟨lead, last, rfl⟩
    · exact List.suffix_rfl
    · obtain ⟨front, whole⟩ := ends
      rw [tail.split, ← List.append_assoc, List.concat_eq_append] at whole
      have here : before = front ++ (lead ++ [last]) := (List.append_cancel_right whole).symm
      refine absurd (same last (by simp)) (tail.closed last ?_)
      simp [here]

/-- What the row in front of the open tail says of the cursor. -/
theorem OpenTail.cursor_iff (tail : OpenTail columns value rows before opened) {text : String} :
    (checkpoint columns endSymbol value before.getLast?).2 = some text ↔
      ∃ row, before.getLast? = some row ∧ row.cell columns.value = value ∧
        row.cell columns.cursor = text ∧ text ≠ "" ∧ text ≠ endSymbol := by
  cases last : before.getLast? with
  | none => simp [checkpoint]
  | some row =>
    by_cases same : row.cell columns.value = value
    · have held : row.cell columns.cursor ≠ "" :=
        fun blank => tail.closed row last ⟨same, blank⟩
      by_cases ended : row.cell columns.cursor = endSymbol
      · simp only [checkpoint, same, ended, ne_eq, not_true_eq_false, if_false, if_true]
        grind
      · simp only [checkpoint, same, ended, ne_eq, not_true_eq_false, if_false]
        grind
    · simp [checkpoint, same]

namespace BackwardReader

variable {reader : BackwardReader}

theorem nextRecord_of_rows_nil (nothing : reader.rows = []) : reader.nextRecord.1 = .ok none := by
  rcases step : reader.nextRecord with ⟨error | (_ | ⟨offset, row⟩), rest⟩
  · rw [rows_of_next_some (by rw [next, step])] at nothing
    cases nothing
  · rfl
  · rw [rows_of_nextRecord_some step] at nothing
    cases nothing

theorem nextRecord_of_rows_cons {others : List (Except Error Row)}
    (found : reader.rows = .ok row :: others) :
    ∃ offset rest, reader.nextRecord = (.ok (some (offset, row)), rest) ∧ rest.rows = others := by
  rcases step : reader.nextRecord with ⟨error | (_ | ⟨offset, row⟩), rest⟩
  · rw [rows_of_next_some (by rw [next, step])] at found
    cases found
  · rw [rows_of_nextRecord_none (by rw [step])] at found
    cases found
  · rw [rows_of_nextRecord_some step] at found
    cases found
    exact ⟨offset, rest, rfl, rfl⟩

theorem rows_afterCalls (readable : reader.rows = (passed ++ earlier).map .ok) :
    (reader.afterCalls passed.length).rows = earlier.map .ok := by
  induction passed generalizing reader with
  | nil => exact readable
  | cons row passed ih =>
    obtain ⟨offset, rest, step, later⟩ := nextRecord_of_rows_cons readable
    rw [List.length_cons, afterCalls, step]
    exact ih later

/-- The search passes the open rows and stops in front of them. The offset it keeps is the one of the
record that it passed last. -/
theorem scanBatch_of_rows (symbol : endSymbol ≠ "")
    (readable : reader.rows = (passed ++ earlier).map .ok)
    (open_rows : ∀ row ∈ passed, row.Open columns value)
    (closed : ∀ row ∈ earlier.head?, ¬row.Open columns value) (collected : List Row)
    (start : Option Nat) :
    ∃ final, reader.scanBatch columns endSymbol (some { value, rows := collected }) start =
        .ok (some ({
          value
          finished := (checkpoint columns endSymbol value earlier.head?).1
          cursor := (checkpoint columns endSymbol value earlier.head?).2
          rows := passed.reverse ++ collected }, final)) ∧
      (passed = [] → final = start) ∧
      ∀ first ∈ passed.getLast?, ∃ offset, final = some offset ∧
        (reader.afterCalls (passed.length - 1)).nextRecord.1 = .ok (some (offset, first)) := by
  induction passed generalizing reader collected start with
  | nil =>
    refine ⟨start, ?_, fun _ => rfl, by simp⟩
    cases earlier with
    | nil => exact scanBatch_of_end (nextRecord_of_rows_nil readable) _ _
    | cons row others =>
      obtain ⟨offset, rest, step, _⟩ := nextRecord_of_rows_cons readable
      have held : row.cell columns.value = value → row.cell columns.cursor ≠ "" :=
        fun same blank => closed row rfl ⟨same, blank⟩
      rw [scanBatch_of_row step, List.head?_cons]
      by_cases same : row.cell columns.value = value
      · by_cases ended : row.cell columns.cursor = endSymbol
        · simp [checkpoint, same, ended]
        · simp [checkpoint, same, ended, held same]
      · simp [checkpoint, same, Ne.symm same]
  | cons row passed ih =>
    obtain ⟨offset, rest, step, later⟩ := nextRecord_of_rows_cons readable
    obtain ⟨here, others⟩ := List.forall_mem_cons.mp open_rows
    obtain ⟨final, scanned, kept, found⟩ := ih later others (row :: collected) (some offset)
    have onward : reader.scanBatch columns endSymbol (some { value, rows := collected }) start =
        rest.scanBatch columns endSymbol (some { value, rows := row :: collected })
          (some offset) := by
      rw [scanBatch_of_row step]
      simp [here.value_eq, here.cursor_eq, Ne.symm symbol]
    refine ⟨final, by rw [onward, scanned]; simp, by simp, ?_⟩
    cases passed with
    | nil =>
      intro first last
      cases last
      exact ⟨offset, kept rfl, congrArg Prod.fst step⟩
    | cons next passed =>
      intro first last
      rw [List.getLast?_cons_cons] at last
      obtain ⟨start, same, given⟩ := found first last
      refine ⟨start, same, ?_⟩
      simp only [List.length_cons, Nat.add_sub_cancel] at given ⊢
      rw [afterCalls, step]
      exact given

end BackwardReader

namespace BackwardOptions

variable {options : BackwardOptions} {path : String} {work : Workspace} {reader : BackwardReader}

/-- A reader starts out with what stands behind the header of the unpacked file. -/
theorem data_of_openPath (opened : options.openPath path work = .ok reader) :
    ∃ content, work.readUnpacked path = .ok content ∧
      reader.tail.data = content.drop reader.tail.floor := by
  obtain ⟨content, found, opened⟩ := Outcome.do_eq_ok_iff.mp opened
  obtain ⟨front, data, split, tail⟩ := exists_tail_of_openContent opened
  refine ⟨content, Outcome.mapError_eq_ok_iff.mp found, ?_⟩
  rw [tail, Tail.data_ofData, split]
  exact List.drop_left.symm

/-- The last batch of a file is its open tail. For a file that is read without an error, let `last`
be its last row and `opened` the longest run of rows at its end that have the value of `last` and no
cursor. The batch has that value and just these rows, in the order of the file. Its cursor is that of
the row in front of them, if that row has the same value and the cursor is not the end symbol. The
offset is the one at which the first of the rows is read; a file that is cut there has just the rows
in front of them. -/
theorem locateLastBatch_of_rows (found : options.openPath path work = .ok reader)
    {valueColumn cursorColumn : ColumnKey} {value cursor : Nat}
    (valueFound : reader.requiredColumn valueColumn = .ok value)
    (cursorFound : reader.requiredColumn cursorColumn = .ok cursor) (symbol : endSymbol ≠ "")
    (readable : reader.rows = rows.reverse.map .ok) {last : Row}
    (final : rows.getLast? = some last) :
    ∃ content before opened batch start, work.readUnpacked path = .ok content ∧
      rows = before ++ opened ∧
      (∀ row ∈ opened, row.cell value = last.cell value ∧ row.cell cursor = "") ∧
      (∀ others, others <:+ rows →
        (∀ row ∈ others, row.cell value = last.cell value ∧ row.cell cursor = "") →
        others <:+ opened) ∧
      options.locateLastBatch path valueColumn cursorColumn endSymbol work =
        .ok (some (batch, start)) ∧
      batch.value = last.cell value ∧ batch.rows = opened ∧
      (∀ text, batch.cursor = some text ↔ ∃ row, before.getLast? = some row ∧
        row.cell value = last.cell value ∧ row.cell cursor = text ∧ text ≠ "" ∧
        text ≠ endSymbol) ∧
      (opened = [] → start = none) ∧
      ∀ first, opened.head? = some first → ∃ offset, start = some offset ∧
        (reader.afterCalls (opened.length - 1)).nextRecord.1 = .ok (some (offset, first)) ∧
        (reader.onContent (content.take offset)).rows = before.reverse.map .ok := by
  let columns : BatchColumns := ⟨value, cursor⟩
  obtain ⟨content, unpacked, data⟩ := data_of_openPath found
  obtain ⟨before, opened, tail⟩ := exists_openTail columns (last.cell value) rows
  have handed : reader.rows = (opened.reverse ++ before.reverse).map .ok := by
    rw [readable, tail.split, List.reverse_append]
  obtain ⟨start, scanned, untouched, placed⟩ := BackwardReader.scanBatch_of_rows symbol handed
    (by simpa using tail.open_rows) (by simpa [List.head?_reverse] using tail.closed) [] none
  have started : reader.scanBatch columns endSymbol none none =
      reader.scanBatch columns endSymbol (some { value := last.cell value, rows := [] }) none := by
    have first : rows.reverse.head? = some last := by rw [List.head?_reverse, final]
    obtain ⟨others, split⟩ := List.head?_eq_some_iff.mp first
    rw [split] at readable
    obtain ⟨offset, rest, step, _⟩ := BackwardReader.nextRecord_of_rows_cons readable
    exact BackwardReader.scanBatch_none step none
  have located : options.locateLastBatch path valueColumn cursorColumn endSymbol work =
      reader.scanBatch columns endSymbol none none := by
    simp [locateLastBatch, openFilled, found, valueFound, cursorFound, Outcome.ok_bind, columns]
  have open_rows (row : Row) (member : row ∈ opened) := tail.open_rows row member
  refine ⟨content, before, opened, _, start, unpacked, tail.split,
    fun row member => ⟨(open_rows row member).value_eq, (open_rows row member).cursor_eq⟩,
    fun others ends same =>
      tail.suffix ends fun row member => ⟨(same row member).1, (same row member).2⟩,
    located.trans (started.trans scanned), rfl, by simp, ?_, by simpa using untouched, ?_⟩
  · simpa [List.head?_reverse] using fun text => tail.cursor_iff
  · intro first leading
    obtain ⟨offset, same, given⟩ := placed first (by simpa [List.getLast?_reverse] using leading)
    rw [List.length_reverse] at given
    refine ⟨offset, same, given, ?_⟩
    have some_open : opened ≠ [] := by
      rintro rfl
      cases leading
    have count : opened.length - 1 + 1 = opened.length :=
      Nat.sub_add_cancel (List.length_pos_iff.mpr some_open)
    rw [BackwardReader.rows_onContent_take data given, count, ← List.length_reverse]
    exact BackwardReader.rows_afterCalls handed

/-- Two rows of one value without a cursor, the first with a line break in it, behind one that has a
cursor; an earlier row without a cursor is not of the last batch. -/
def tailText : Bytes :=
  Text.bytes "name,cursor,note\nann,p1,\nbob,,\nbob,c7,x\nbob,,\"a\nb\"\r\nbob,,z"

def tailFile : Workspace := { files := [("b.csv", tailText)] }

theorem locateLastBatch_of_rows_sample :
    ∃ reader, openPath {} "b.csv" tailFile = .ok reader ∧
      locateLastBatch {} "b.csv" (.named "name") (.named "cursor") "end" tailFile =
        .ok (some ({
          value := "bob"
          cursor := some "c7"
          rows := [["bob", "", "a\nb"], ["bob", "", "z"]] }, some 40)) ∧
      (reader.afterCalls 1).nextRecord.1 = .ok (some (40, ["bob", "", "a\nb"])) ∧
      (reader.onContent (tailText.take 40)).rows =
        [.ok ["bob", "c7", "x"], .ok ["bob", "", ""], .ok ["ann", "p1", ""]] := by
  let earlier : List Row := [["ann", "p1", ""], ["bob", "", ""], ["bob", "c7", "x"]]
  let rows : List Row := earlier ++ [["bob", "", "a\nb"], ["bob", "", "z"]]
  have opened : (openPath {} "b.csv" tailFile).map (fun reader =>
      (reader.requiredColumn (.named "name"), reader.requiredColumn (.named "cursor"),
        reader.rows)) = .ok (.ok 0, .ok 1, rows.reverse.map .ok) := by
    decide +kernel
  obtain ⟨reader, found, facts⟩ := Outcome.map_eq_ok_iff.mp opened
  obtain ⟨valueFound, facts⟩ := Prod.mk.inj facts
  obtain ⟨cursorFound, readable⟩ := Prod.mk.inj facts
  have located : locateLastBatch {} "b.csv" (.named "name") (.named "cursor") "end" tailFile =
      .ok (some ({
        value := "bob"
        cursor := some "c7"
        rows := [["bob", "", "a\nb"], ["bob", "", "z"]] }, some 40)) := by
    decide +kernel
  have unpacked : tailFile.readUnpacked "b.csv" = .ok tailText := by decide +kernel
  obtain ⟨content, before, tail, batch, start, there, split, _, _, search, _, same, _, _, placed⟩ :=
    locateLastBatch_of_rows found valueFound cursorFound (by decide : "end" ≠ "") readable rfl
  cases there.symm.trans unpacked
  cases search.symm.trans located
  subst same
  obtain rfl : earlier = before := List.append_cancel_right split
  obtain ⟨offset, kept, given, cut⟩ := placed _ rfl
  cases kept
  exact ⟨reader, found, located, given, cut⟩

end BackwardOptions

end ResumableCsv
