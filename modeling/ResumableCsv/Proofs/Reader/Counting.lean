import ResumableCsv.Proofs.Reader.Built
import ResumableCsv.Proofs.Reader.Prebuffered

/-!
Counting the rows of a file without keeping them. When a reader hands out all rows of the file, the
count is the number of these rows, or is given up just when it is over the limit.
-/

namespace ResumableCsv

open Record

variable {dialect : Dialect} {encoding : Encoding} {input : Input} {rows : List Row}

namespace ReaderOptions

variable {headerRows seen : Nat} {limit : Option Nat}

theorem countRecords_of_end (scan : scanRecord dialect input.content = none)
    (fault : input.fault = none) :
    countRecords dialect headerRows limit seen input = .ok (some (seen - headerRows)) := by
  rw [countRecords]
  split <;> simp_all

/-- A record that was scanned whole counts, and may be the one too many. -/
theorem countRecords_of_scan {scanned : Scanned Record}
    (scan : scanRecord dialect input.content = some scanned)
    (whole : ¬(scanned.ending = .inputEnd ∧ input.fault.isSome = true)) :
    countRecords dialect headerRows limit seen input =
      if limit.any fun most => most < seen + 1 - headerRows then .ok none
      else countRecords dialect headerRows limit (seen + 1) ⟨scanned.rest, input.fault⟩ := by
  rw [countRecords]
  split <;> simp_all

theorem exceeds_mono {fewer more : Nat} (increase : fewer ≤ more)
    (exceeded : (limit.any fun most => most < fewer) = true) :
    (limit.any fun most => most < more) = true := by
  cases limit with
  | none => cases exceeded
  | some most => exact decide_eq_true (Nat.lt_of_lt_of_le (of_decide_eq_true exceeded) increase)

/-- Counting goes on from the records seen to the end of a text of rows, unless these are more than
the limit. -/
theorem countRecords_of_items
    (items : (Source.text dialect encoding input).items = rows.map .ok)
    (within : ∀ most ∈ limit, seen - headerRows ≤ most) :
    countRecords dialect headerRows limit seen input =
      .ok (if limit.any fun most => most < seen + rows.length - headerRows then none
        else some (seen + rows.length - headerRows)) := by
  -- By the rows still to come: while `within` holds, no record seen so far was one too many.
  induction rows generalizing input seen with
  | nil =>
    obtain ⟨scan, fault⟩ := Source.scan_of_end (Source.next_of_items_nil items)
    have inside : ¬(limit.any fun most => most < seen - headerRows) = true := by
      simpa [Option.any_eq_true] using within
    rw [countRecords_of_end scan fault, List.length_nil, Nat.add_zero, if_neg inside]
  | cons row rows ih =>
    obtain ⟨rest, step, later⟩ := Source.next_of_items_cons items
    obtain ⟨scanned, scan, _, whole, rfl⟩ := Source.scan_of_row step
    have total : seen + (row :: rows).length = seen + 1 + rows.length := by
      simp only [List.length_cons]
      omega
    rw [countRecords_of_scan scan whole, total]
    by_cases exceeded : (limit.any fun most => most < seen + 1 - headerRows) = true
    · rw [if_pos exceeded, if_pos (exceeds_mono (by omega) exceeded)]
    · rw [if_neg exceeded]
      exact ih later (by simpa [Option.any_eq_true] using exceeded)

end ReaderOptions

namespace Reader

variable {reader : Reader}

/-- Without a split every row of a reader is one item of its source. -/
theorem exists_of_flatMap_divide (unsplit : reader.split = none)
    {items : List (Except Error Row)} (sound : items.flatMap reader.divide = rows.map .ok) :
    ∃ raw : List Row, items = raw.map .ok ∧ raw.length = rows.length := by
  induction items generalizing rows with
  | nil =>
    have nothing : rows = [] := by simpa using sound.symm
    exact ⟨[], rfl, by rw [nothing]⟩
  | cons item items ih =>
    rw [List.flatMap_cons] at sound
    cases checked : item.bind reader.check with
    | error error =>
      rw [divide_of_error checked] at sound
      cases rows <;> simp at sound
    | ok row =>
      have single : reader.splitRow row = [row] := by rw [splitRow, unsplit]
      rw [divide_of_ok checked, single] at sound
      obtain ⟨given, rfl, _⟩ := Outcome.bind_eq_ok_iff.mp checked
      cases rows with
      | nil => simp at sound
      | cons first rows =>
        obtain ⟨raw, rfl, length⟩ := ih (List.cons.inj sound).2
        exact ⟨given :: raw, rfl, by simp [length]⟩

variable {options : ReaderOptions} {source : Source} {delimiter : UInt8}

/-- When a reader hands out its rows to the end, its source is these rows and the header row. -/
theorem items_of_rows (unsplit : options.multiplex = none)
    (built : build options source delimiter = .ok reader) (sound : reader.rows = rows.map .ok) :
    ∃ raw : List Row, source.items = raw.map .ok ∧
      raw.length = rows.length + (!options.noHeaders).toNat := by
  rw [rows_eq_untilError] at sound
  have items := eq_map_ok_of_untilError sound
  rw [items_of_build built] at items
  obtain ⟨raw, same, length⟩ := exists_of_flatMap_divide (split_of_build unsplit built) items
  cases headed : options.noHeaders with
  | true =>
    rw [headed, if_pos rfl] at same
    exact ⟨raw, same, by simpa using length⟩
  | false =>
    obtain ⟨first, rest, _, step, _⟩ := exists_of_build built
    rw [headed, if_neg (by decide), Source.items_of_row step, List.tail_cons] at same
    exact ⟨first :: raw, by rw [Source.items_of_row step, same]; rfl, by simp [length]⟩

end Reader

namespace ReaderOptions

/-- When a reader on a file hands out rows to the end without an error, counting finds just as many,
or none when they are more than the limit. Nothing is stripped when rows are counted. -/
theorem count_of_rows {options : ReaderOptions} {path : String} {work : Workspace}
    {reader : Reader} (unstripped : options.nuls ≠ .strip) (unsplit : options.multiplex = none)
    (opened : options.openPath path work = .ok reader) (sound : reader.rows = rows.map .ok) :
    options.count path none work = .ok (some rows.length) ∧
      ∀ most, options.count path (some most) work =
        .ok (if rows.length ≤ most then some rows.length else none) := by
  obtain ⟨input, found, opened⟩ := Outcome.do_eq_ok_iff.mp opened
  obtain ⟨blocks, cut, built⟩ := Outcome.do_eq_ok_iff.mp opened
  obtain ⟨raw, items, length⟩ := Reader.items_of_rows unsplit built sound
  rw [parsedText_of_unstripped unstripped] at items
  have counted (limit : Option Nat) : options.count path limit work =
      .ok (if limit.any fun most => most < rows.length then none else some rows.length) := by
    have total : 0 + raw.length - (!options.noHeaders).toNat = rows.length := by omega
    rw [count, found, Outcome.ok_bind, cut, Outcome.ok_bind, ← total]
    exact countRecords_of_items items (by simp)
  refine ⟨counted none, fun most => ?_⟩
  rw [counted]
  by_cases within : rows.length ≤ most <;> simp [within]

/-- Two rows are counted up to a limit of two. -/
theorem count_of_rows_sample :
    let work : Workspace := { files := [("a.csv", Text.bytes "n\n1\n\n2")] }
    ∃ reader, ({} : ReaderOptions).nuls ≠ .strip ∧ ({} : ReaderOptions).multiplex = none ∧
      ({} : ReaderOptions).openPath "a.csv" work = .ok reader ∧
      reader.rows = [["1"], ["2"]].map .ok ∧
      ({} : ReaderOptions).count "a.csv" none work = .ok (some 2) ∧
      ({} : ReaderOptions).count "a.csv" (some 2) work = .ok (some 2) ∧
      ({} : ReaderOptions).count "a.csv" (some 1) work = .ok none := by
  intro work
  have read : (({} : ReaderOptions).openPath "a.csv" work).map (fun reader =>
      (reader.next.1, reader.next.2.next.1, reader.next.2.next.2.next.1)) =
        .ok (some (.ok ["1"]), some (.ok ["2"]), none) := by decide +kernel
  obtain ⟨reader, opened, shown⟩ := Outcome.map_eq_ok_iff.mp read
  simp only [Prod.mk.injEq] at shown
  obtain ⟨first, second, ended⟩ := shown
  have rows : reader.rows = [["1"], ["2"]].map .ok := by
    rw [Reader.rows_of_next_some (Prod.ext first rfl),
      Reader.rows_of_next_some (Prod.ext second rfl), Reader.rows_of_next_none ended]
    rfl
  obtain ⟨unlimited, limited⟩ := count_of_rows (by decide) rfl opened rows
  exact ⟨reader, by decide, rfl, opened, rows, unlimited, limited 2, limited 1⟩

end ReaderOptions

end ResumableCsv
