import ResumableCsv.Proofs.Backward.Offsets

/-!
What a reader from the end depends on: the bytes that are left, not how they arrive. Two readers over
the same bytes give the same records at the same offsets, whatever their chunks are, and once a
record is handed out the reader goes on as one over the source cut where that record starts.
-/

namespace ResumableCsv

open Record

namespace Tail

/-- The same bytes are left of both. -/
structure Twin (tail twin : Tail) : Prop where
  data_eq : tail.data = twin.data
  floor_eq : tail.floor = twin.floor

/-- What is left of `tail` once all from an offset on was handed out: the bytes in front of the
offset, without the line feed that ends them. -/
structure CutAt (tail : Tail) (offset : Nat) (front : Bytes) (rest : Tail) : Prop where
  leading : front <+: tail.data
  closed : front = [] ∨ ∃ lead, front = lead ++ [lineFeed]
  offset_eq : offset = tail.floor + front.length
  data_eq : rest.data = front.dropLast
  floor_eq : rest.floor = tail.floor

variable {tail twin middle rest : Tail} {offset earlier : Nat} {line front before : Bytes}

theorem Twin.nextLine (same : tail.Twin twin) {found : Option (Nat × Bytes)} {chunk : Nat}
    (step : tail.nextLine chunk = (found, rest)) (other : Nat) :
    ∃ left, twin.nextLine other = (found, left) ∧ rest.Twin left := by
  by_cases broken : lineFeed ∈ tail.data
  · obtain ⟨before, line, split, inner⟩ := exists_last_lineFeed broken
    obtain ⟨rest, here, data, floor⟩ := nextLine_of_lineFeed chunk split inner
    obtain ⟨left, there, leftData, leftFloor⟩ :=
      nextLine_of_lineFeed other (same.data_eq.symm.trans split) inner
    cases step.symm.trans here
    rw [← same.floor_eq] at there leftFloor
    exact ⟨left, there, data.trans leftData.symm, floor.trans leftFloor.symm⟩
  · obtain ⟨rest, here, data, floor⟩ := nextLine_of_no_lineFeed chunk broken
    obtain ⟨left, there, leftData, leftFloor⟩ :=
      nextLine_of_no_lineFeed other (same.data_eq ▸ broken)
    cases step.symm.trans here
    rw [← same.floor_eq, ← same.data_eq] at there
    rw [← same.floor_eq] at leftFloor
    exact ⟨left, there, data.trans leftData.symm, floor.trans leftFloor.symm⟩

/-- Where the first cut is made does not matter once a second one is made in front of it. -/
theorem CutAt.trans (cut : tail.CutAt offset front middle)
    (again : middle.CutAt earlier before rest) :
    tail.CutAt earlier before rest where
  leading := by
    have shorter := again.leading
    rw [cut.data_eq] at shorter
    exact (shorter.trans (List.dropLast_prefix front)).trans cut.leading
  closed := again.closed
  offset_eq := again.offset_eq.trans (by rw [cut.floor_eq])
  data_eq := again.data_eq
  floor_eq := again.floor_eq.trans cut.floor_eq

theorem cutAt_nextLine {chunk : Nat} (step : tail.nextLine chunk = (some (offset, line), rest)) :
    ∃ front, tail.CutAt offset front rest := by
  by_cases broken : lineFeed ∈ tail.data
  · obtain ⟨before, last, split, inner⟩ := exists_last_lineFeed broken
    obtain ⟨left, taken, data, floor⟩ := nextLine_of_lineFeed chunk split inner
    rw [taken] at step
    cases step
    exact ⟨before ++ [lineFeed], ⟨line, by simp [split]⟩, .inr ⟨before, rfl⟩,
      by simp [Nat.add_assoc], by simpa using data, floor⟩
  · obtain ⟨left, taken, data, floor⟩ := nextLine_of_no_lineFeed chunk broken
    rw [taken] at step
    split at step
    · cases step
    · cases step
      exact ⟨[], List.nil_prefix, .inl rfl, rfl, data, floor⟩

theorem twin_of_nextLine_none {chunk : Nat} (step : tail.nextLine chunk = (none, rest)) :
    rest.Twin tail := by
  by_cases broken : lineFeed ∈ tail.data
  · obtain ⟨before, last, split, inner⟩ := exists_last_lineFeed broken
    obtain ⟨left, taken, _⟩ := nextLine_of_lineFeed chunk split inner
    cases step.symm.trans taken
  · obtain ⟨left, taken, data, floor⟩ := nextLine_of_no_lineFeed chunk broken
    rw [taken] at step
    split at step
    next nothing =>
      cases step
      exact ⟨data.trans nothing.symm, floor⟩
    next => cases step

end Tail

namespace BackwardReader

open Tail

variable {tail twin rest : Tail} {quote : UInt8} {chunk offset start : Nat}
  {line frame front : Bytes}

theorem glue_twin (same : tail.Twin twin) {whole : Nat × Bytes}
    (step : glue quote chunk offset line tail = (whole, rest)) (other : Nat) :
    ∃ left, glue quote other offset line twin = (whole, left) ∧ rest.Twin left := by
  fun_induction glue quote chunk offset line tail generalizing twin with
  | case1 offset line tail odd middle taken =>
    obtain ⟨left, there, later⟩ := same.nextLine taken other
    cases step
    exact ⟨left, glue_of_odd_none odd there, later⟩
  | case2 offset line tail odd earlier previous middle taken ih =>
    obtain ⟨left, there, later⟩ := same.nextLine taken other
    rw [glue_of_odd_some odd there]
    exact ih later step
  | case3 offset line tail even =>
    cases step
    exact ⟨twin, by rw [glue, if_neg even], same⟩

theorem nextFrame_twin (same : tail.Twin twin) {found : Option (Nat × Bytes)}
    (step : nextFrame quote chunk tail = (found, rest)) (other : Nat) :
    ∃ left, nextFrame quote other twin = (found, left) ∧ rest.Twin left := by
  fun_induction nextFrame quote chunk tail generalizing twin with
  | case1 tail middle taken =>
    obtain ⟨left, there, later⟩ := same.nextLine taken other
    cases step
    exact ⟨left, nextFrame_of_none there, later⟩
  | case2 tail offset line middle taken blank ih =>
    obtain ⟨left, there, later⟩ := same.nextLine taken other
    rw [nextFrame_of_some there, if_pos blank]
    exact ih later step
  | case3 tail offset line middle taken filled whole last glued =>
    obtain ⟨left, there, later⟩ := same.nextLine taken other
    obtain ⟨behind, together, after⟩ := glue_twin later glued other
    cases step
    refine ⟨behind, ?_, after⟩
    rw [nextFrame_of_some there, if_neg filled, together]

/-- Lines are glued in front of a line up to where a cut can be made. -/
theorem cutAt_glue (quote : UInt8) (chunk : Nat) (line : Bytes) {whole : Tail}
    (cut : whole.CutAt offset front tail) :
    ∃ before, whole.CutAt (glue quote chunk offset line tail).1.1 before
      (glue quote chunk offset line tail).2 := by
  fun_induction glue quote chunk offset line tail generalizing front with
  | case1 offset line tail odd rest step =>
    have same := twin_of_nextLine_none step
    exact ⟨front, cut.leading, cut.closed, cut.offset_eq, same.data_eq.trans cut.data_eq,
      same.floor_eq.trans cut.floor_eq⟩
  | case2 offset line tail odd earlier previous rest step ih =>
    obtain ⟨before, again⟩ := cutAt_nextLine step
    exact ih (cut.trans again)
  | case3 => exact ⟨front, cut⟩

/-- A frame starts behind a line feed or at the start of the data, and what is left is what stands in
front of it. -/
theorem cutAt_nextFrame (step : nextFrame quote chunk tail = (some (offset, frame), rest)) :
    ∃ front, tail.CutAt offset front rest := by
  fun_induction nextFrame quote chunk tail with
  | case1 => cases step
  | case2 tail start line middle taken blank ih =>
    obtain ⟨front, cut⟩ := cutAt_nextLine taken
    obtain ⟨before, again⟩ := ih step
    exact ⟨before, cut.trans again⟩
  | case3 tail start line middle taken filled whole last glued =>
    obtain ⟨front, cut⟩ := cutAt_nextLine taken
    obtain ⟨before, again⟩ := cutAt_glue quote chunk (stripReturn line) cut
    rw [glued] at again
    cases step
    exact ⟨before, again⟩

/-- The same bytes are left of both readers, to be read in the same way. -/
structure Twin (reader twin : BackwardReader) : Prop where
  tail : reader.tail.Twin twin.tail
  dialect_eq : reader.dialect = twin.dialect
  encoding_eq : reader.encoding = twin.encoding
  nuls_eq : reader.nuls = twin.nuls
  exhausted_eq : reader.exhausted = twin.exhausted

variable {reader twin rest : BackwardReader}

theorem Twin.parse (same : reader.Twin twin) : reader.parse = twin.parse := by
  funext frame
  simp only [BackwardReader.parse, same.dialect_eq, same.encoding_eq, same.nuls_eq]

theorem Twin.nextRecord (same : reader.Twin twin) {found : Except Error (Option (Nat × Row))}
    (step : reader.nextRecord = (found, rest)) :
    ∃ left, twin.nextRecord = (found, left) ∧ rest.Twin left := by
  unfold BackwardReader.nextRecord at step ⊢
  rw [← same.exhausted_eq]
  split at step
  next ended =>
    cases step
    exact ⟨twin, by rw [if_pos ended], same⟩
  next running =>
    rw [if_neg running]
    split at step
    next behind taken =>
      obtain ⟨left, there, later⟩ := nextFrame_twin same.tail taken twin.chunkSize
      rw [← same.dialect_eq, there]
      cases step
      exact ⟨_, rfl, later, rfl, same.encoding_eq, same.nuls_eq, rfl⟩
    next offset frame behind taken =>
      obtain ⟨left, there, later⟩ := nextFrame_twin same.tail taken twin.chunkSize
      rw [← same.dialect_eq, there, ← same.parse]
      cases step
      exact ⟨_, rfl, later, rfl, same.encoding_eq, same.nuls_eq, rfl⟩

theorem Twin.next (same : reader.Twin twin) {found : Option (Except Error Row)}
    (step : reader.next = (found, rest)) :
    ∃ left, twin.next = (found, left) ∧ rest.Twin left := by
  unfold BackwardReader.next at step ⊢
  split at step
  next offset row behind taken =>
    obtain ⟨left, there, later⟩ := same.nextRecord taken
    cases step
    exact ⟨left, by rw [there], later⟩
  next behind taken =>
    obtain ⟨left, there, later⟩ := same.nextRecord taken
    cases step
    exact ⟨left, by rw [there], later⟩
  next error behind taken =>
    obtain ⟨left, there, later⟩ := same.nextRecord taken
    cases step
    exact ⟨{ left with exhausted := true }, by rw [there],
      later.tail, later.dialect_eq, later.encoding_eq, later.nuls_eq, rfl⟩

/-- Readers over the same bytes hand out the same rows, and fail at the same row. -/
theorem Twin.rows (same : reader.Twin twin) : reader.rows = twin.rows := by
  induction left : reader.tail.remaining using Nat.strongRecOn generalizing reader twin with
  | ind count ih =>
    rcases step : reader.next with ⟨_ | item, rest⟩
    · obtain ⟨behind, there, _⟩ := same.next step
      rw [rows_of_next_none (by rw [step]), rows_of_next_none (by rw [there])]
    · obtain ⟨behind, there, later⟩ := same.next step
      have fewer : rest.tail.remaining < count := by
        have less := remaining_next reader
        rw [step, left] at less
        exact less (by simp)
      rw [rows_of_next_some step, rows_of_next_some there, ih _ fewer later rfl]

theorem rows_of_nextRecord_eq (same : reader.nextRecord = twin.nextRecord) :
    reader.rows = twin.rows := by
  have steps : reader.next = twin.next := by rw [next, next, same]
  rcases step : twin.next with ⟨_ | item, rest⟩
  · rw [rows_of_next_none (by rw [steps, step]), rows_of_next_none (by rw [step])]
  · rw [rows_of_next_some (steps.trans step), rows_of_next_some step]

/-- What is left of a reader once all records from an offset on were handed out. -/
structure CutAt (reader : BackwardReader) (offset : Nat) (front : Bytes) (rest : BackwardReader) :
    Prop where
  tail : reader.tail.CutAt offset front rest.tail
  running : reader.exhausted = false
  rest_eq : rest = { reader with tail := rest.tail }

variable {middle : BackwardReader} {before : Bytes}

theorem CutAt.trans (cut : reader.CutAt offset front middle)
    (again : middle.CutAt start before rest) : reader.CutAt start before rest where
  tail := cut.tail.trans again.tail
  running := cut.running
  rest_eq := by
    have same := again.rest_eq
    rwa [cut.rest_eq] at same

/-- A call that is not at the end cuts the bytes where the record starts, also when the record
cannot be read. -/
theorem cutAt_nextRecord (reader : BackwardReader) (going : reader.nextRecord.1 ≠ .ok none) :
    ∃ offset front, reader.CutAt offset front reader.nextRecord.2 ∧
      ∀ start row, reader.nextRecord.1 = .ok (some (start, row)) → start = offset := by
  unfold nextRecord at going ⊢
  split at going
  · exact absurd rfl going
  next running =>
    rw [if_neg running]
    split at going
    next => exact absurd rfl going
    next offset frame rest step =>
      obtain ⟨front, cut⟩ := cutAt_nextFrame step
      refine ⟨offset, front, ⟨cut, by simpa using running, rfl⟩, fun start row found => ?_⟩
      obtain ⟨_, _, same⟩ := Outcome.map_eq_ok_iff.mp found
      cases same
      rfl

/-- However many calls were made, the bytes are cut where the record of the last one starts. -/
theorem cutAt_afterCalls {calls : Nat} {row : Row}
    (found : (reader.afterCalls calls).nextRecord.1 = .ok (some (offset, row))) :
    ∃ front, reader.CutAt offset front (reader.afterCalls (calls + 1)) := by
  induction calls generalizing reader with
  | zero =>
    have found : reader.nextRecord.1 = .ok (some (offset, row)) := found
    obtain ⟨start, front, cut, same⟩ := cutAt_nextRecord reader (by simp [found])
    obtain rfl := same offset row found
    exact ⟨front, cut⟩
  | succ calls ih =>
    have going : reader.nextRecord.1 ≠ .ok none := by
      intro ended
      rw [afterCalls_of_ended ended] at found
      cases found
    obtain ⟨_, _, cut, _⟩ := cutAt_nextRecord reader going
    obtain ⟨front, again⟩ := ih found
    exact ⟨front, cut.trans again⟩

/-- The bytes in front of the cut hold the rows that are left; that a line feed ends them there makes
no difference. -/
theorem CutAt.rows (cut : reader.CutAt offset front rest) (data : tail.data = front)
    (floor : tail.floor = reader.tail.floor) :
    ({ reader with tail := tail } : BackwardReader).rows = rest.rows := by
  have twin {left : Tail} (leftData : left.data = front.dropLast)
      (leftFloor : left.floor = reader.tail.floor) :
      ({ reader with tail := left } : BackwardReader).Twin rest := by
    rw [cut.rest_eq]
    exact ⟨⟨leftData.trans cut.tail.data_eq.symm, leftFloor.trans cut.tail.floor_eq.symm⟩,
      rfl, rfl, rfl, rfl⟩
  rcases cut.tail.closed with rfl | ⟨lead, rfl⟩
  · exact (twin data floor).rows
  · have blank : tail.data = (lead ++ [lineFeed]) ++ [] := by rw [data, List.append_nil]
    obtain ⟨left, passed, leftData, leftFloor⟩ := nextFrame_of_blank reader.dialect.quote
      reader.chunkSize blank (by simp [data]) (.inl rfl) (.inr ⟨lead, rfl⟩)
    refine (rows_of_nextRecord_eq ?_).trans (twin leftData (leftFloor.trans floor)).rows
    simp only [nextRecord, cut.running, Bool.false_eq_true, if_false, passed]
    rfl

/-- The reader of other content behind the same header. -/
def onContent (reader : BackwardReader) (content : Bytes) : BackwardReader :=
  { reader with tail := .ofData reader.tail.floor (content.drop reader.tail.floor) }

/-- Content that is cut where a record starts is read as what the reader has left behind that
record. -/
theorem rows_onContent_take {content : Bytes}
    (data : reader.tail.data = content.drop reader.tail.floor) {calls : Nat} {row : Row}
    (found : (reader.afterCalls calls).nextRecord.1 = .ok (some (offset, row))) :
    (reader.onContent (content.take offset)).rows = (reader.afterCalls (calls + 1)).rows := by
  obtain ⟨front, cut⟩ := cutAt_afterCalls found
  refine cut.rows ?_ rfl
  rw [data_ofData, cut.tail.offset_eq, ← List.take_drop, ← data]
  exact (List.prefix_iff_eq_take.mp cut.tail.leading).symm

end BackwardReader

end ResumableCsv
