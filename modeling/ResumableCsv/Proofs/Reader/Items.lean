import ResumableCsv.Proofs.Reader.Rows

/-!
Readers as lists of items. What a source still has to give, rows and errors alike, is checked and
divided one by one; a reader gives the rows it holds and then those. Reading takes the first item
off, and an error with all that is behind it; looking leaves a row where it is.
-/

namespace ResumableCsv

/-- All that a source still has to give; it goes on behind an error. -/
def Source.items (source : Source) : List (Except Error Row) :=
  match _step : source.next with
  | (.ok none, _) => []
  | (.ok (some row), rest) => .ok row :: items rest
  | (.error error, rest) => .error error :: items rest
termination_by source.size
decreasing_by
  all_goals
    have fewer := @size_next_lt source
    rw [_step] at fewer
    exact fewer (by simp)

namespace Source

variable {source rest : Source} {item : Except Error Row} {others : List (Except Error Row)}

theorem items_of_end (ended : source.next.1 = .ok none) : source.items = [] := by
  rw [items]
  split <;> simp_all

theorem items_of_row {row : Row} (step : source.next = (.ok (some row), rest)) :
    source.items = .ok row :: rest.items := by
  rw [items]
  split <;> simp_all

theorem items_of_error {error : Error} (step : source.next = (.error error, rest)) :
    source.items = .error error :: rest.items := by
  rw [items]
  split <;> simp_all

theorem next_of_items_nil (nothing : source.items = []) : source.next.1 = .ok none := by
  rcases step : source.next with ⟨error | _ | row, rest⟩
  · rw [items_of_error step] at nothing
    cases nothing
  · rfl
  · rw [items_of_row step] at nothing
    cases nothing

theorem next_of_items_cons (found : source.items = item :: others) :
    ∃ rest, source.next = (item.map some, rest) ∧ rest.items = others := by
  rcases step : source.next with ⟨error | _ | row, rest⟩
  · rw [items_of_error step] at found
    cases found
    exact ⟨rest, rfl, rfl⟩
  · rw [items_of_end (by rw [step])] at found
    cases found
  · rw [items_of_row step] at found
    cases found
    exact ⟨rest, rfl, rfl⟩

end Source

namespace Reader

/-- The rows of a source as they are, with the one that was read to learn the row length. -/
def raw (reader : Reader) : List (Except Error Row) :=
  reader.lookahead.toList.map .ok ++ reader.source.items

/-- What a reader makes of one item of its source. -/
def divide (reader : Reader) (item : Except Error Row) : List (Except Error Row) :=
  match item.bind reader.check with
  | .ok row => (reader.splitRow row).map .ok
  | .error error => [.error error]

/-- All that is to come once the buffer is empty. -/
def coming (reader : Reader) : List (Except Error Row) :=
  reader.expanded.map .ok ++ reader.raw.flatMap reader.divide

/-- All that a reader still has to give, if an error did not end it. -/
def items (reader : Reader) : List (Except Error Row) :=
  match reader.phase with
  | .ready => reader.buffer.map .ok ++ reader.coming
  | _ => []

variable {reader rest : Reader} {item : Except Error Row} {row : Row}
  {others : List (Except Error Row)}

theorem items_of_ready (ready : reader.phase = .ready) :
    reader.items = reader.buffer.map .ok ++ reader.coming := by
  simp [items, ready]

theorem items_of_fresh (ready : reader.phase = .ready) (unbuffered : reader.buffer = [])
    (single : reader.expanded = []) : reader.items = reader.raw.flatMap reader.divide := by
  rw [items_of_ready ready, coming, unbuffered, single]
  rfl

theorem items_of_not_ready (unready : reader.phase ≠ .ready) : reader.items = [] := by
  cases phase : reader.phase <;> simp_all [items]

theorem ready_of_items_cons (found : reader.items = item :: others) : reader.phase = .ready := by
  cases phase : reader.phase with
  | ready => rfl
  | empty | exhausted =>
    rw [items_of_not_ready (by simp [phase])] at found
    cases found

theorem splitRow_ne_nil (reader : Reader) (row : Row) : reader.splitRow row ≠ [] := by
  unfold splitRow
  split
  · simp
  · simp [Row.multiplex, Text.splitOn_ne_nil]

theorem divide_ne_nil (reader : Reader) (item : Except Error Row) : reader.divide item ≠ [] := by
  unfold divide
  split
  · simp [splitRow_ne_nil]
  · simp

theorem check_of_shape (same : rest.shape = reader.shape) : rest.check = reader.check := by
  have length : rest.rowLength = reader.rowLength := congrArg Shape.rowLength same
  have nuls : rest.nuls = reader.nuls := congrArg Shape.nuls same
  funext row
  simp only [check, length, nuls]

theorem splitRow_of_shape (same : rest.shape = reader.shape) :
    rest.splitRow = reader.splitRow := by
  have split : rest.split = reader.split := congrArg Shape.split same
  funext row
  simp only [splitRow, split]

/-- Items are made of what a source gives by the shape of the reader alone. -/
theorem divide_of_shape (same : rest.shape = reader.shape) : rest.divide = reader.divide := by
  funext item
  simp only [divide, check_of_shape same, splitRow_of_shape same]

theorem divide_of_error {error : Error} (refused : item.bind reader.check = .error error) :
    reader.divide item = [.error error] := by
  simp [divide, refused]

theorem divide_of_ok (checked : item.bind reader.check = .ok row) :
    reader.divide item = (reader.splitRow row).map .ok := by
  simp [divide, checked]

theorem takeRaw_of_raw_nil (nothing : reader.raw = []) :
    ∃ rest, reader.takeRaw = (.ok none, rest) ∧ rest.raw = [] := by
  obtain ⟨held, none_left⟩ := List.append_eq_nil_iff.mp nothing
  have absent : reader.lookahead = none := by
    cases looked : reader.lookahead with
    | none => rfl
    | some row => simp [looked] at held
  have ended := Source.next_of_items_nil none_left
  refine ⟨{ reader with source := reader.source.next.2 }, by simp [takeRaw, absent, ended], ?_⟩
  simp [raw, absent, Source.items_of_end (Source.next_after_end ended)]

theorem takeRaw_of_raw_cons (found : reader.raw = item :: others) :
    ∃ rest, reader.takeRaw = (item.map some, rest) ∧ rest.raw = others := by
  cases looked : reader.lookahead with
  | some row =>
    simp only [raw, looked, Option.toList_some, List.map_cons, List.map_nil, List.cons_append,
      List.nil_append] at found
    cases found
    exact ⟨{ reader with lookahead := none }, by simp [takeRaw, looked, Except.map], rfl⟩
  | none =>
    simp only [raw, looked, Option.toList_none, List.map_nil, List.nil_append] at found
    obtain ⟨source, step, later⟩ := Source.next_of_items_cons found
    exact ⟨{ reader with source := source }, by simp [takeRaw, looked, step],
      by simp [raw, looked, later]⟩

/-- A row of the source is checked before it is handed on. -/
theorem nextSourceRow_of_raw_cons (found : reader.raw = item :: others) :
    ∃ rest, reader.nextSourceRow = ((item.bind reader.check).map some, rest) ∧
      rest.raw = others := by
  obtain ⟨rest, taken, later⟩ := takeRaw_of_raw_cons found
  have kept : rest.shape = reader.shape := by simpa only [taken] using shape_takeRaw reader
  have same := check_of_shape kept
  refine ⟨rest, ?_, later⟩
  cases item <;> simp [nextSourceRow, taken, same, Except.map, Except.bind]

theorem kept_of_nextExpanded {outcome : Except Error (Option Row)}
    (step : reader.nextExpanded = (outcome, rest)) :
    rest.phase = reader.phase ∧ rest.buffer = reader.buffer := by
  simpa only [step] using kept_nextExpanded reader

theorem nextExpanded_of_coming_nil (nothing : reader.coming = []) :
    ∃ rest, reader.nextExpanded = (.ok none, rest) ∧ rest.coming = [] := by
  obtain ⟨held, none_left⟩ := List.append_eq_nil_iff.mp nothing
  have single : reader.expanded = [] := List.map_eq_nil_iff.mp held
  have unread : reader.raw = [] := by
    cases left : reader.raw with
    | nil => rfl
    | cons item others =>
      rw [left, List.flatMap_cons] at none_left
      exact absurd (List.append_eq_nil_iff.mp none_left).1 (reader.divide_ne_nil item)
  obtain ⟨rest, taken, later⟩ := takeRaw_of_raw_nil unread
  have kept : rest.expanded = reader.expanded := by
    simpa only [taken] using (kept_takeRaw reader).2.2
  refine ⟨rest, by simp [nextExpanded, single, nextSourceRow, taken], ?_⟩
  simp [coming, kept, single, later]

/-- The first of the items to come is handed out, and the others are still to come. -/
theorem nextExpanded_of_coming_cons (found : reader.coming = item :: others) :
    ∃ rest, reader.nextExpanded = (item.map some, rest) ∧ rest.coming = others := by
  cases held : reader.expanded with
  | cons row rows =>
    simp only [coming, held, List.map_cons, List.cons_append] at found
    obtain ⟨rfl, rfl⟩ := List.cons.inj found
    exact ⟨{ reader with expanded := rows }, by simp [nextExpanded, held, Except.map], rfl⟩
  | nil =>
    simp only [coming, held, List.map_nil, List.nil_append] at found
    obtain ⟨first, left, unread⟩ : ∃ first left, reader.raw = first :: left := by
      cases unread : reader.raw with
      | nil => simp [unread] at found
      | cons first left => exact ⟨first, left, rfl⟩
    obtain ⟨rest, taken, later⟩ := nextSourceRow_of_raw_cons unread
    have shape : rest.shape = reader.shape := by
      simpa only [taken] using shape_nextSourceRow reader
    have kept : rest.expanded = reader.expanded := by
      simpa only [taken] using (kept_nextSourceRow reader).2.2
    have same := divide_of_shape shape
    rw [unread, List.flatMap_cons] at found
    cases checked : first.bind reader.check with
    | error error =>
      rw [checked] at taken
      rw [divide_of_error checked] at found
      obtain ⟨rfl, rfl⟩ := List.cons.inj found
      refine ⟨rest, by simp [nextExpanded, held, taken, Except.map], ?_⟩
      simp [coming, kept, held, later, same]
    | ok row =>
      rw [checked] at taken
      obtain ⟨piece, pieces, divided⟩ := List.exists_cons_of_ne_nil (reader.splitRow_ne_nil row)
      rw [divide_of_ok checked, divided, List.map_cons, List.cons_append] at found
      obtain ⟨rfl, rfl⟩ := List.cons.inj found
      refine ⟨{ rest with expanded := pieces }, ?_, ?_⟩
      · simp [nextExpanded, held, taken, splitRow_of_shape shape, divided, Except.map]
      · have unchanged : ({ rest with expanded := pieces } : Reader).divide = reader.divide :=
          divide_of_shape shape
        have untouched : ({ rest with expanded := pieces } : Reader).raw = left := later
        simp only [coming, unchanged, untouched]

theorem readRow_of_items_nil (nothing : reader.items = []) :
    ∃ rest, reader.readRow = (.ok none, rest) ∧ rest.items = [] := by
  by_cases ready : reader.phase = .ready
  · rw [items_of_ready ready] at nothing
    obtain ⟨held, unread⟩ := List.append_eq_nil_iff.mp nothing
    have unbuffered : reader.buffer = [] := List.map_eq_nil_iff.mp held
    obtain ⟨rest, taken, _⟩ := nextExpanded_of_coming_nil unread
    exact ⟨{ rest with phase := .exhausted }, by simp [readRow, ready, unbuffered, taken], rfl⟩
  · exact ⟨reader, by cases phase : reader.phase <;> simp_all [readRow], nothing⟩

/-- What is left once an item was read: an error leaves nothing. -/
def behind : Except Error Row → List (Except Error Row) → List (Except Error Row)
  | .ok _, others => others
  | .error _, _ => []

theorem readRow_of_items_cons (found : reader.items = item :: others) :
    ∃ rest, reader.readRow = (item.map some, rest) ∧ rest.items = behind item others := by
  have ready := ready_of_items_cons found
  rw [items_of_ready ready] at found
  cases buffered : reader.buffer with
  | cons row rows =>
    simp only [buffered, List.map_cons, List.cons_append] at found
    obtain ⟨rfl, rfl⟩ := List.cons.inj found
    refine ⟨{ reader with buffer := rows }, by simp [readRow, ready, buffered, Except.map], ?_⟩
    exact items_of_ready ready
  | nil =>
    simp only [buffered, List.map_nil, List.nil_append] at found
    obtain ⟨rest, taken, later⟩ := nextExpanded_of_coming_cons found
    cases item with
    | error error =>
      exact ⟨{ rest with phase := .exhausted },
        by simp [readRow, ready, buffered, taken, Except.map], rfl⟩
    | ok row =>
      refine ⟨rest, by simp [readRow, ready, buffered, taken, Except.map], ?_⟩
      have kept := kept_of_nextExpanded taken
      rw [items_of_ready (kept.1.trans ready), kept.2, buffered, later]
      rfl

theorem peek_of_items_nil (nothing : reader.items = []) :
    ∃ rest, reader.peek = (.ok none, rest) ∧ rest.items = [] := by
  by_cases ready : reader.phase = .ready
  · rw [items_of_ready ready] at nothing
    obtain ⟨held, unread⟩ := List.append_eq_nil_iff.mp nothing
    have unbuffered : reader.buffer = [] := List.map_eq_nil_iff.mp held
    obtain ⟨rest, taken, later⟩ := nextExpanded_of_coming_nil unread
    refine ⟨rest, by simp [peek, ready, unbuffered, taken], ?_⟩
    have kept := kept_of_nextExpanded taken
    rw [items_of_ready (kept.1.trans ready), kept.2, unbuffered, later]
    rfl
  · exact ⟨reader, by cases phase : reader.phase <;> simp_all [peek], nothing⟩

/-- What is left once an item was looked at: a row stays, an error is taken off. -/
def beyond : Except Error Row → List (Except Error Row) → List (Except Error Row)
  | .ok row, others => .ok row :: others
  | .error _, others => others

theorem peek_of_items_cons (found : reader.items = item :: others) :
    ∃ rest, reader.peek = (item.map some, rest) ∧ rest.items = beyond item others := by
  have ready := ready_of_items_cons found
  cases buffered : reader.buffer with
  | cons row rows =>
    have first : item = .ok row := by
      rw [items_of_ready ready, buffered] at found
      exact (List.cons.inj found).1.symm
    subst first
    exact ⟨reader, by simp [peek, ready, buffered, Except.map], found⟩
  | nil =>
    rw [items_of_ready ready, buffered, List.map_nil, List.nil_append] at found
    obtain ⟨rest, taken, later⟩ := nextExpanded_of_coming_cons found
    have kept := kept_of_nextExpanded taken
    have still : rest.phase = .ready := kept.1.trans ready
    cases item with
    | error error =>
      refine ⟨rest, by simp [peek, ready, buffered, taken, Except.map], ?_⟩
      rw [items_of_ready still, kept.2, buffered, later]
      rfl
    | ok row =>
      refine ⟨{ rest with buffer := [row] },
        by simp [peek, ready, buffered, taken, Except.map], ?_⟩
      rw [items_of_ready (by exact still), beyond, ← later]
      rfl

/-- Items up to the first error. -/
def untilError : List (Except Error Row) → List (Except Error Row)
  | [] => []
  | .ok row :: others => .ok row :: untilError others
  | .error error :: _ => [.error error]

theorem untilError_rows (rows : List Row) (items : List (Except Error Row)) :
    untilError (rows.map .ok ++ items) = rows.map .ok ++ untilError items := by
  induction rows with
  | nil => rfl
  | cons row rows ih => simp only [List.map_cons, List.cons_append, untilError, ih]

/-- Reading to the end hands out the items up to the first error. -/
theorem rows_eq_untilError (reader : Reader) : reader.rows = untilError reader.items := by
  generalize same : reader.items = items
  induction items generalizing reader with
  | nil =>
    obtain ⟨rest, step, _⟩ := readRow_of_items_nil same
    exact rows_of_next_none (by simp [next, step])
  | cons item others ih =>
    obtain ⟨rest, step, later⟩ := readRow_of_items_cons same
    have taken : reader.next = (some item, rest) := by
      cases item <;> simp [next, step, Except.map]
    rw [rows_of_next_some taken]
    cases item with
    | ok row => rw [ih rest later, untilError]
    | error error =>
      obtain ⟨last, ended, _⟩ := readRow_of_items_nil later
      rw [rows_of_next_none (by simp [next, ended]), untilError]

/-- What is to be read from a reader with these items once it is settled: an error in front fails
already then. -/
def opened : List (Except Error Row) → Except Error (List (Except Error Row))
  | .error error :: _ => .error error
  | items => .ok (untilError items)

/-- Settling fails at an error in front and takes nothing away. -/
theorem rows_settle (ready : reader.phase = .ready) (unbuffered : reader.buffer = []) :
    reader.settle.map Reader.rows = opened reader.items := by
  have all : reader.items = reader.coming := by
    rw [items_of_ready ready, unbuffered]
    rfl
  cases coming : reader.coming with
  | nil =>
    obtain ⟨rest, taken, _⟩ := nextExpanded_of_coming_nil coming
    have settled : reader.settle = .ok { rest with phase := .empty } := by
      simp [settle, unbuffered, taken]
    rw [settled, all, coming]
    exact congrArg Except.ok (rows_of_next_none rfl)
  | cons item others =>
    obtain ⟨rest, taken, later⟩ := nextExpanded_of_coming_cons coming
    cases item with
    | error error =>
      rw [all, coming]
      simp [settle, unbuffered, taken, opened, Except.map]
    | ok row =>
      have still : rest.phase = .ready := (kept_of_nextExpanded taken).1.trans ready
      have settled : reader.settle = .ok { rest with buffer := [row] } := by
        simp [settle, unbuffered, taken, Except.map]
      have held : Reader.items { rest with buffer := [row] } = .ok row :: others := by
        rw [items_of_ready (by exact still), ← later]
        rfl
      rw [settled, all, coming]
      exact congrArg Except.ok ((rows_eq_untilError _).trans (by rw [held]))

end Reader

/-- The errors that reading rows can meet. -/
def Error.IsReading : Error → Prop
  | .csv _ | .decode _ | .rowLengthMismatch .. | .nulByte _ => True
  | _ => False

theorem isReading_of_decodeRow {encoding : Encoding} {fields : Record} {error : Error}
    (failed : decodeRow encoding fields = .error error) : error.IsReading := by
  induction fields with
  | nil => cases failed
  | cons field rest ih =>
    rw [decodeRow] at failed
    split at failed
    · cases failed
      trivial
    · cases later : decodeRow encoding rest with
      | ok cells => simp [later, Except.map] at failed
      | error other =>
        rw [later] at failed
        cases failed
        exact ih later

theorem Source.isReading_of_next {source : Source} {error : Error}
    (failed : source.next.1 = .error error) : error.IsReading := by
  have decoded {encoding : Encoding} {fields : Record}
      (failed : (decodeRow encoding fields).map some = .error error) : error.IsReading := by
    cases outcome : decodeRow encoding fields with
    | ok cells => simp [outcome, Except.map] at failed
    | error other =>
      rw [outcome] at failed
      cases failed
      exact isReading_of_decodeRow outcome
  match source with
  | .listed [] | .listed (_ :: _) => cases failed
  | .text dialect encoding input =>
    have failed : (input.nextRow dialect encoding).1 = .error error := failed
    unfold Input.nextRow at failed
    split at failed
    · cases failed
    · cases failed
      trivial
    · exact decoded failed
    · split at failed
      · cases failed
        trivial
      · exact decoded failed

theorem Source.isReading_of_mem_items {source : Source} {error : Error}
    (member : .error error ∈ source.items) : error.IsReading := by
  generalize same : source.items = items at member
  induction items generalizing source with
  | nil => cases member
  | cons item others ih =>
    obtain ⟨rest, step, later⟩ := next_of_items_cons same
    rcases List.mem_cons.mp member with rfl | member
    · exact isReading_of_next (congrArg Prod.fst step)
    · exact ih later member

namespace Reader

theorem isReading_of_check {reader : Reader} {row : Row} {error : Error}
    (refused : reader.check row = .error error) : error.IsReading := by
  unfold check at refused
  split at refused
  · unfold NulPolicy.apply at refused
    split at refused
    · cases refused
    · cases refused
    · split at refused <;> cases refused
      trivial
  · cases refused
    trivial

theorem isReading_of_mem_items {reader : Reader} {error : Error}
    (member : .error error ∈ reader.items) : error.IsReading := by
  have ready : reader.phase = .ready := by
    obtain ⟨item, others, found⟩ := List.exists_cons_of_ne_nil (List.ne_nil_of_mem member)
    exact ready_of_items_cons found
  rw [items_of_ready ready, coming] at member
  simp only [List.mem_append, List.mem_map, List.mem_flatMap, reduceCtorEq, and_false,
    exists_false, false_or] at member
  obtain ⟨item, unread, member⟩ := member
  cases checked : item.bind reader.check with
  | ok row =>
    rw [divide_of_ok checked] at member
    simp at member
  | error other =>
    rw [divide_of_error checked, List.mem_singleton] at member
    cases member
    cases item with
    | ok row => exact isReading_of_check checked
    | error first =>
      cases checked
      simp only [raw, List.mem_append, List.mem_map, reduceCtorEq, and_false, exists_false,
        false_or] at unread
      exact Source.isReading_of_mem_items unread

theorem isReading_of_next {reader : Reader} {error : Error}
    (failed : reader.next.1 = some (.error error)) : error.IsReading := by
  apply isReading_of_mem_items
  cases found : reader.items with
  | nil =>
    obtain ⟨rest, step, _⟩ := readRow_of_items_nil found
    simp [next, step] at failed
  | cons item others =>
    obtain ⟨rest, step, _⟩ := readRow_of_items_cons found
    cases item with
    | ok row => simp [next, step, Except.map] at failed
    | error other =>
      simp only [next, step, Except.map] at failed
      rw [Option.some.inj failed]
      exact List.mem_cons_self

end Reader

end ResumableCsv
