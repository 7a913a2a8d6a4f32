import ResumableCsv.Reader.Open

/-!
The rows of a reader as a list: taking one item leaves a reader of the others, every row handed out
has the length of the reader, and a source that hands out rows of that length one by one is read as
just those rows.
-/

namespace ResumableCsv

/-- A source hands out these rows and then comes to its end. -/
inductive Source.Feeds : Source → List Row → Prop
  | nothing {source : Source} (ended : source.next.1 = .ok none) : Feeds source []
  | row {source rest : Source} {row : Row} {rows : List Row}
      (step : source.next = (.ok (some row), rest)) (later : Feeds rest rows) :
      Feeds source (row :: rows)

namespace Source

variable {dialect : Dialect} {encoding : Encoding} {input : Input}

/-- At the end of a text nothing is scanned, and no fault was withheld. -/
theorem scan_of_end (ended : (text dialect encoding input).next.1 = .ok none) :
    Record.scanRecord dialect input.content = none ∧ input.fault = none := by
  have outcome : (input.nextRow dialect encoding).1 = .ok none := ended
  unfold Input.nextRow at outcome
  split at outcome
  next scan whole => exact ⟨scan, whole⟩
  next => cases outcome
  next scanned _ _ =>
    cases decoded : decodeRow encoding scanned.value <;> simp [decoded, Except.map] at outcome
  next scanned _ _ _ =>
    split at outcome
    · cases outcome
    · cases decoded : decodeRow encoding scanned.value <;> simp [decoded, Except.map] at outcome

/-- A row of a text is a record that was scanned whole. -/
theorem scan_of_row {rest : Source} {row : Row}
    (step : (text dialect encoding input).next = (.ok (some row), rest)) :
    ∃ scanned, Record.scanRecord dialect input.content = some scanned ∧
      decodeRow encoding scanned.value = .ok row ∧
      ¬(scanned.ending = .inputEnd ∧ input.fault.isSome = true) ∧
      rest = .text dialect encoding ⟨scanned.rest, input.fault⟩ := by
  have decoded {fields : Record}
      (read : (decodeRow encoding fields).map some = .ok (some row)) :
      decodeRow encoding fields = .ok row := by
    cases found : decodeRow encoding fields <;> simp_all [Except.map]
  simp only [next, Input.nextRow] at step
  split at step
  next => cases step
  next => cases step
  next scanned scan fault =>
    obtain ⟨read, rfl⟩ := Prod.mk.inj step
    exact ⟨scanned, scan, decoded read, by simp [fault], by rw [fault]⟩
  next scanned error scan fault =>
    split at step
    next => cases step
    next inner =>
      obtain ⟨read, rfl⟩ := Prod.mk.inj step
      exact ⟨scanned, scan, decoded read, fun both => inner both.1, by rw [fault]⟩

theorem next_after_end {source : Source} (ended : source.next.1 = .ok none) :
    source.next.2.next.1 = .ok none := by
  match source with
  | .listed [] => rfl
  | .listed (row :: rows) => cases ended
  | .text dialect encoding input =>
    obtain ⟨scan, whole⟩ := scan_of_end ended
    have step : (text dialect encoding input).next =
        (.ok none, .text dialect encoding .exhausted) := by
      simp [next, Input.nextRow, scan, whole]
    rw [step]
    rfl

end Source

namespace Reader

theorem rows_of_next_none {reader : Reader} (ended : reader.next.1 = none) : reader.rows = [] := by
  rw [rows, pull]
  simp only [reduceCtorEq, if_false]
  split
  next => rfl
  next item rest step =>
    rw [step] at ended
    cases ended

theorem rows_of_next_some {reader rest : Reader} {item : Except Error Row}
    (step : reader.next = (some item, rest)) : reader.rows = item :: rest.rows := by
  rw [rows, pull]
  simp only [reduceCtorEq, if_false]
  split
  next other =>
    rw [step] at other
    cases other
  next other =>
    rw [step] at other
    cases other
    rfl

theorem next_of_rows_nil {reader : Reader} (none_left : reader.rows = []) :
    reader.next.1 = none := by
  match step : reader.next with
  | (none, rest) => rfl
  | (some item, rest) =>
    rw [rows_of_next_some step] at none_left
    cases none_left

theorem next_of_rows_cons {reader : Reader} {item : Except Error Row}
    {items : List (Except Error Row)} (found : reader.rows = item :: items) :
    ∃ rest, reader.next = (some item, rest) ∧ rest.rows = items := by
  match step : reader.next with
  | (none, rest) =>
    rw [rows_of_next_none (by rw [step])] at found
    cases found
  | (some other, rest) =>
    rw [rows_of_next_some step] at found
    cases found
    exact ⟨rest, rfl, rfl⟩

/-- At its end a reader stays at its end. -/
theorem rows_after_end {reader : Reader} (ended : reader.next.1 = none) :
    reader.next.2.rows = [] := by
  have still := measure_of_next_none reader ended
  apply rows_of_next_none
  by_cases more : reader.next.2.next.1 = none
  · exact more
  · have earlier := before_next reader.next.2 more
    rw [Before, still] at earlier
    rcases Prod.lex_def.mp earlier with fewer | ⟨_, fewer⟩
    · exact absurd fewer (Nat.not_lt_zero _)
    · exact absurd fewer (Nat.not_lt_zero _)

/-- What a reader knows of the rows before it has read any. -/
structure Shape where
  headers : Option Headers
  rowLength : Nat
  delimiter : UInt8
  split : Option (Nat × String)
  nuls : NulPolicy

def shape (reader : Reader) : Shape :=
  ⟨reader.headers, reader.rowLength, reader.delimiter, reader.split, reader.nuls⟩

theorem shape_takeRaw (reader : Reader) : reader.takeRaw.2.shape = reader.shape := by
  unfold takeRaw
  split <;> rfl

theorem shape_nextSourceRow (reader : Reader) : reader.nextSourceRow.2.shape = reader.shape := by
  have kept := shape_takeRaw reader
  unfold nextSourceRow
  split <;> simp_all

theorem shape_nextExpanded (reader : Reader) : reader.nextExpanded.2.shape = reader.shape := by
  have kept := shape_nextSourceRow reader
  unfold nextExpanded
  split
  · rfl
  · split <;> simp_all [shape]

theorem shape_readRow (reader : Reader) : reader.readRow.2.shape = reader.shape := by
  have kept := shape_nextExpanded reader
  unfold readRow
  split
  · rfl
  · split <;> simp_all [shape]
  · rfl

theorem shape_next (reader : Reader) : reader.next.2.shape = reader.shape := by
  have kept := shape_readRow reader
  unfold next
  split <;> simp_all

/-- A reader that hands out the rows of its source as they are; `rows` are those that are not in
its buffer. -/
structure Plain (reader : Reader) (rows : List Row) : Prop where
  ready : reader.phase = .ready
  unsplit : reader.split = none
  kept : reader.nuls = .keep
  single : reader.expanded = []
  coming : ∃ fed, reader.source.Feeds fed ∧ reader.lookahead.toList ++ fed = rows
  even : ∀ row ∈ rows, row.length = reader.rowLength

theorem Plain.nextExpanded_nil {reader : Reader} (plain : reader.Plain []) :
    ∃ rest, reader.nextExpanded = (.ok none, rest) ∧ rest.Plain [] := by
  obtain ⟨fed, feeds, coming⟩ := plain.coming
  obtain ⟨nothing, rfl⟩ := List.append_eq_nil_iff.mp coming
  have absent : reader.lookahead = none := by
    cases held : reader.lookahead with
    | none => rfl
    | some row => simp [held] at nothing
  cases feeds with
  | nothing ended =>
    refine ⟨{ reader with source := reader.source.next.2 }, ?_, plain.ready, plain.unsplit,
      plain.kept, plain.single, ⟨[], .nothing (Source.next_after_end ended), by simp [absent]⟩,
      by simp⟩
    simp [nextExpanded, plain.single, nextSourceRow, takeRaw, absent, ended]

theorem Plain.takeRaw_cons {reader : Reader} {row : Row} {rows : List Row}
    (plain : reader.Plain (row :: rows)) :
    ∃ rest, reader.takeRaw = (.ok (some row), rest) ∧ rest.Plain rows := by
  obtain ⟨fed, feeds, coming⟩ := plain.coming
  have even : ∀ other ∈ rows, other.length = reader.rowLength :=
    fun other member => plain.even other (by simp [member])
  cases held : reader.lookahead with
  | some first =>
    rw [held] at coming
    cases coming
    refine ⟨{ reader with lookahead := none }, by simp [takeRaw, held], plain.ready, plain.unsplit,
      plain.kept, plain.single, ⟨fed, feeds, rfl⟩, even⟩
  | none =>
    rw [held] at coming
    cases coming
    cases feeds with
    | row step later =>
      rename_i source
      refine ⟨{ reader with source := source }, by simp [takeRaw, held, step], plain.ready,
        plain.unsplit, plain.kept, plain.single, ⟨rows, later, by simp [held]⟩, even⟩

theorem Plain.nextExpanded_cons {reader : Reader} {row : Row} {rows : List Row}
    (plain : reader.Plain (row :: rows)) :
    ∃ rest, reader.nextExpanded = (.ok (some row), rest) ∧ rest.Plain rows := by
  obtain ⟨rest, taken, later⟩ := plain.takeRaw_cons
  have shape : rest.shape = reader.shape := by
    have kept := shape_takeRaw reader
    rwa [taken] at kept
  have length : row.length = rest.rowLength := by
    rw [plain.even row (by simp)]
    exact (congrArg Shape.rowLength shape).symm
  refine ⟨{ rest with expanded := [] }, ?_, later.ready, later.unsplit, later.kept, rfl,
    later.coming, later.even⟩
  simp [nextExpanded, plain.single, nextSourceRow, taken, check, length, later.kept,
    NulPolicy.apply, Except.map, splitRow, later.unsplit]

theorem Plain.rows_of_buffer_nil {reader : Reader} {rows : List Row} (plain : reader.Plain rows)
    (unbuffered : reader.buffer = []) : reader.rows = rows.map .ok := by
  induction rows generalizing reader with
  | nil =>
    obtain ⟨rest, step, _⟩ := plain.nextExpanded_nil
    exact rows_of_next_none (by simp [next, readRow, plain.ready, unbuffered, step])
  | cons row rows ih =>
    obtain ⟨rest, step, later⟩ := plain.nextExpanded_cons
    have kept : rest.buffer = reader.buffer := by
      have same := (kept_nextExpanded reader).2
      rwa [step] at same
    have taken : reader.next = (some (.ok row), rest) := by
      simp [next, readRow, plain.ready, unbuffered, step]
    rw [rows_of_next_some taken, ih later (kept.trans unbuffered)]
    rfl

/-- A plain reader hands out its buffer and then its rows. -/
theorem Plain.rows_eq {reader : Reader} {rows : List Row} (plain : reader.Plain rows) :
    reader.rows = (reader.buffer ++ rows).map .ok := by
  cases buffered : reader.buffer with
  | nil => exact plain.rows_of_buffer_nil buffered
  | cons row more =>
    have step : reader.next = (some (.ok row), { reader with buffer := more }) := by
      simp [next, readRow, plain.ready, buffered]
    have later : Plain { reader with buffer := more } rows :=
      ⟨plain.ready, plain.unsplit, plain.kept, plain.single, plain.coming, plain.even⟩
    rw [rows_of_next_some step, later.rows_eq]
    rfl
termination_by reader.buffer.length
decreasing_by
  rw [buffered]
  exact Nat.lt_succ_self _

theorem fillBuffer_of_end {reader rest : Reader} (step : reader.nextExpanded = (.ok none, rest))
    (budget used : Nat) (held : List Row) :
    reader.fillBuffer budget used held =
      .ok { rest with buffer := held.reverse, total := some held.length } := by
  rw [fillBuffer]
  split <;> simp_all

theorem fillBuffer_of_row {reader rest : Reader} {row : Row}
    (step : reader.nextExpanded = (.ok (some row), rest)) (budget used : Nat) (held : List Row) :
    reader.fillBuffer budget used held =
      if budget < used + row.footprint then .ok { rest with buffer := (row :: held).reverse }
      else rest.fillBuffer budget (used + row.footprint) (row :: held) := by
  rw [fillBuffer]
  split <;> simp_all

/-- Reading ahead only moves rows into the buffer. -/
theorem Plain.fillBuffer_eq {reader : Reader} {rows : List Row} (plain : reader.Plain rows)
    (budget used : Nat) (held : List Row) :
    ∃ filled later, reader.fillBuffer budget used held = .ok filled ∧ filled.Plain later ∧
      filled.buffer ++ later = held.reverse ++ rows ∧ filled.shape = reader.shape := by
  induction rows generalizing reader used held with
  | nil =>
    obtain ⟨rest, step, later⟩ := plain.nextExpanded_nil
    have kept := shape_nextExpanded reader
    rw [step] at kept
    exact ⟨{ rest with buffer := held.reverse, total := some held.length }, [],
      fillBuffer_of_end step budget used held,
      ⟨later.ready, later.unsplit, later.kept, later.single, later.coming, later.even⟩, rfl, kept⟩
  | cons row rows ih =>
    obtain ⟨rest, step, later⟩ := plain.nextExpanded_cons
    have kept := shape_nextExpanded reader
    rw [step] at kept
    rw [fillBuffer_of_row step]
    by_cases spent : budget < used + row.footprint
    · rw [if_pos spent]
      exact ⟨{ rest with buffer := (row :: held).reverse }, rows, rfl,
        ⟨later.ready, later.unsplit, later.kept, later.single, later.coming, later.even⟩,
        by simp, kept⟩
    · rw [if_neg spent]
      obtain ⟨filled, after, built, isPlain, same, shape⟩ :=
        ih later (used + row.footprint) (row :: held)
      exact ⟨filled, after, built, isPlain, by simpa using same, shape.trans kept⟩

end Reader

end ResumableCsv
