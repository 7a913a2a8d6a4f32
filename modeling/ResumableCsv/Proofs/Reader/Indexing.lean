import ResumableCsv.Proofs.Reader.Level

/-!
Looking cells up by their position. Here a reader is built and read with look-ups that stop everything
when a position lies behind the end of its row: where a row is divided at the split column, and where
the cell of a column is taken. Nothing ever stops: building and all calls on what was built come to
what they come to when a cell that is not there counts as empty.
-/

namespace ResumableCsv.Reader

/-- The rows that a row stands for, if the cell to divide is there. -/
def splitRow? (reader : Reader) (row : Row) : Option (List Row) :=
  match reader.split with
  | none => some [row]
  | some (index, separator) =>
    row[index]?.map fun cell =>
      (Text.splitOn separator.toList cell.toList).map fun piece =>
        row.set index (String.ofList piece)

def nextExpanded? (reader : Reader) : Option (Except Error (Option Row) × Reader) :=
  match reader.expanded with
  | row :: rows => some (.ok (some row), { reader with expanded := rows })
  | [] =>
    match reader.nextSourceRow with
    | (.ok (some row), rest) =>
      (rest.splitRow? row).map fun pieces =>
        (.ok pieces.head?, { rest with expanded := pieces.tail })
    | (.ok none, rest) => some (.ok none, rest)
    | (.error error, rest) => some (.error error, rest)

def readRow? (reader : Reader) : Option (Except Error (Option Row) × Reader) :=
  match reader.phase, reader.buffer with
  | .ready, row :: rows => some (.ok (some row), { reader with buffer := rows })
  | .ready, [] =>
    reader.nextExpanded?.map fun
      | (.ok (some row), rest) => (.ok (some row), rest)
      | (.ok none, rest) => (.ok none, { rest with phase := .exhausted })
      | (.error error, rest) => (.error error, { rest with phase := .exhausted })
  | _, _ => some (.ok none, reader)

def peek? (reader : Reader) : Option (Except Error (Option Row) × Reader) :=
  match reader.phase, reader.buffer with
  | .ready, row :: _ => some (.ok (some row), reader)
  | .ready, [] =>
    reader.nextExpanded?.map fun
      | (.ok (some row), rest) => (.ok (some row), { rest with buffer := [row] })
      | (.ok none, rest) => (.ok none, rest)
      | (.error error, rest) => (.error error, rest)
  | _, _ => some (.ok none, reader)

def next? (reader : Reader) : Option (Option (Except Error Row) × Reader) :=
  reader.readRow?.map fun
    | (.ok (some row), rest) => (some (.ok row), rest)
    | (.ok none, rest) => (none, rest)
    | (.error error, rest) => (some (.error error), rest)

variable {reader : Reader} {row : Row}

theorem splitRow?_sound {pieces : List Row} (found : reader.splitRow? row = some pieces) :
    reader.splitRow row = pieces := by
  rcases divided : reader.split with _ | ⟨index, separator⟩ <;>
    simp only [splitRow?, divided] at found <;> simp only [splitRow, divided]
  · exact Option.some.inj found
  · obtain ⟨cell, there, rfl⟩ := Option.map_eq_some_iff.mp found
    simp only [Row.multiplex, Row.cell, there, Option.getD_some]

/-- A step that does not stop does what it does without a look at the ends of rows. -/
theorem nextExpanded?_sound {outcome : Except Error (Option Row) × Reader}
    (found : reader.nextExpanded? = some outcome) : reader.nextExpanded = outcome := by
  cases held : reader.expanded with
  | cons row rows =>
    simp only [nextExpanded?, held, Option.some.injEq] at found
    simp only [nextExpanded, held, found]
  | nil =>
    rcases step : reader.nextSourceRow with ⟨error | _ | row, rest⟩ <;>
      simp only [nextExpanded?, held, step] at found <;> simp only [nextExpanded, held, step]
    · exact Option.some.inj found
    · exact Option.some.inj found
    · obtain ⟨pieces, divided, rfl⟩ := Option.map_eq_some_iff.mp found
      rw [splitRow?_sound divided]

theorem readRow?_sound {outcome : Except Error (Option Row) × Reader}
    (found : reader.readRow? = some outcome) : reader.readRow = outcome := by
  cases phase : reader.phase with
  | ready =>
    cases buffered : reader.buffer with
    | cons row rows =>
      simp only [readRow?, phase, buffered, Option.some.injEq] at found
      simp only [readRow, phase, buffered, found]
    | nil =>
      simp only [readRow?, phase, buffered] at found
      obtain ⟨⟨error | _ | row, rest⟩, step, rfl⟩ := Option.map_eq_some_iff.mp found <;>
        simp only [readRow, phase, buffered, nextExpanded?_sound step]
  | empty | exhausted =>
    simp only [readRow?, phase, Option.some.injEq] at found
    simp only [readRow, phase, found]

theorem next?_sound {outcome : Option (Except Error Row) × Reader}
    (found : reader.next? = some outcome) : reader.next = outcome := by
  obtain ⟨⟨error | _ | row, rest⟩, step, rfl⟩ := Option.map_eq_some_iff.mp found <;>
    simp only [next, readRow?_sound step]

/-- A row beside its cell at an index. -/
def withCell? (index : Nat) : Except Error Row → Option (Except Error (Row × String))
  | .ok row => row[index]?.map fun cell => .ok (row, cell)
  | .error error => some (.error error)

/-- Iterates over the rows and the cells of one column. -/
def pullRows? (index : Nat) (limit : Option Nat) (reader : Reader) :
    Option (List (Except Error (Row × String)) × Reader) :=
  if limit = some 0 then some ([], reader)
  else
    match _step : reader.next? with
    | none => none
    | some (none, rest) => some ([], rest)
    | some (some item, rest) => do
      let shown ← withCell? index item
      let (others, last) ← pullRows? index (limit.map (· - 1)) rest
      pure (shown :: others, last)
termination_by reader.measure
decreasing_by
  have earlier := before_next reader
  rw [next?_sound _step] at earlier
  exact earlier (by simp)

def fillBuffer? (budget used : Nat) (held : List Row) (reader : Reader) :
    Option (Except Error Reader) :=
  match _step : reader.nextExpanded? with
  | none => none
  | some (.error error, _) => some (.error error)
  | some (.ok none, rest) =>
    some (.ok { rest with buffer := held.reverse, total := some held.length })
  | some (.ok (some row), rest) =>
    if budget < used + row.footprint then some (.ok { rest with buffer := (row :: held).reverse })
    else fillBuffer? budget (used + row.footprint) (row :: held) rest
termination_by reader.ahead
decreasing_by
  have earlier := ahead_nextExpanded reader
  rw [nextExpanded?_sound _step] at earlier
  exact earlier (by simp)

def prebuffered? (budget : Option Nat) (reader : Reader) : Option (Except Error Reader) :=
  match budget with
  | some budget => reader.fillBuffer? budget 0 []
  | none => some (.ok reader)

def settle? (reader : Reader) : Option (Except Error Reader) :=
  match reader.buffer with
  | _ :: _ => some (.ok reader)
  | [] =>
    reader.nextExpanded?.map fun
      | (.error error, _) => .error error
      | (.ok none, rest) => .ok { rest with phase := .empty }
      | (.ok (some row), rest) => .ok { rest with buffer := [row] }

def build? (options : ReaderOptions) (source : Source) (delimiter : UInt8) :
    Option (Except Error Reader) :=
  match source.next with
  | (.error error, _) => some (.error error)
  | (.ok none, _) => some (.error .emptyFile)
  | (.ok (some first), rest) =>
    match multiplexed options.multiplex (ofFirstRow options first rest delimiter) with
    | .error error => some (.error error)
    | .ok configured => do
      match ← configured.prebuffered? options.prebuffer with
      | .error error => pure (.error error)
      | .ok filled => filled.settle?

/-- What a call hands out. -/
inductive Answer
  | row (found : Except Error (Option Row))
  | cells (found : Except Error (List (Except Error String)))
  | rows (found : Except Error (List (Except Error (Row × String))))

def Visit.answer : Visit → Reader → Answer
  | .look asked, reader => .row (asked.ask reader).1
  | .cells key limit, reader =>
    .cells ((reader.requiredColumn key).map fun index => (reader.pullCells limit index).1)
  | .cellsWithRows key limit, reader =>
    .rows ((reader.requiredColumn key).map fun index =>
      (reader.pull limit).1.map fun item => item.map fun row => (row, row.cell index))

def Visit.ask? : Visit → Reader → Option (Answer × Reader)
  | .look .peek, reader => reader.peek?.map fun (found, rest) => (.row found, rest)
  | .look .read, reader => reader.readRow?.map fun (found, rest) => (.row found, rest)
  | .cells key limit, reader =>
    match reader.requiredColumn key with
    | .error error => some (.cells (.error error), reader)
    | .ok index =>
      (reader.pullRows? index limit).map fun (items, rest) =>
        (.cells (.ok (items.map fun item => item.map Prod.snd)), rest)
  | .cellsWithRows key limit, reader =>
    match reader.requiredColumn key with
    | .error error => some (.rows (.error error), reader)
    | .ok index => (reader.pullRows? index limit).map fun (items, rest) => (.rows (.ok items), rest)

/-- What some calls hand out, one after the other. -/
def answers : List Visit → Reader → List Answer
  | [], _ => []
  | visit :: visits, reader => visit.answer reader :: answers visits (visit.ask reader).2

def answers? : List Visit → Reader → Option (List Answer)
  | [], _ => some []
  | visit :: visits, reader => do
    let (answer, rest) ← visit.ask? reader
    let others ← answers? visits rest
    pure (answer :: others)

/-- A row that passed the check has a cell to divide, as the split column is within the row length. -/
theorem Level.nextExpanded?_eq (level : reader.Level) :
    reader.nextExpanded? = some reader.nextExpanded := by
  suffices ∃ outcome, reader.nextExpanded? = some outcome by
    obtain ⟨outcome, found⟩ := this
    rw [found, nextExpanded?_sound found]
  have shape := shape_nextSourceRow reader
  have length := @length_of_nextSourceRow reader
  unfold nextExpanded?
  split
  · exact ⟨_, rfl⟩
  · split
    next row rest step =>
      rw [step] at shape length
      have split : rest.split = reader.split := congrArg Shape.split shape
      have whole : row.length = reader.rowLength := length rfl
      cases divided : reader.split with
      | none => simp [splitRow?, split, divided]
      | some division =>
        have there : division.1 < row.length :=
          lt_of_lt_of_eq (level.inside division.1 division.2 divided) whole.symm
        simp [splitRow?, split, divided, there]
    next => exact ⟨_, rfl⟩
    next => exact ⟨_, rfl⟩

theorem Level.readRow?_eq (level : reader.Level) : reader.readRow? = some reader.readRow := by
  cases phase : reader.phase with
  | ready =>
    cases buffered : reader.buffer with
    | cons row rows => simp only [Reader.readRow?, Reader.readRow, phase, buffered]
    | nil =>
      rcases step : reader.nextExpanded with ⟨error | _ | row, rest⟩ <;>
        simp only [Reader.readRow?, Reader.readRow, phase, buffered, level.nextExpanded?_eq, step,
          Option.map_some]
  | empty | exhausted => simp only [Reader.readRow?, Reader.readRow, phase]

theorem Level.peek?_eq (level : reader.Level) : reader.peek? = some reader.peek := by
  cases phase : reader.phase with
  | ready =>
    cases buffered : reader.buffer with
    | cons row rows => simp only [Reader.peek?, Reader.peek, phase, buffered]
    | nil =>
      rcases step : reader.nextExpanded with ⟨error | _ | row, rest⟩ <;>
        simp only [Reader.peek?, Reader.peek, phase, buffered, level.nextExpanded?_eq, step,
          Option.map_some]
  | empty | exhausted => simp only [Reader.peek?, Reader.peek, phase]

theorem Level.next?_eq (level : reader.Level) : reader.next? = some reader.next := by
  rcases step : reader.readRow with ⟨error | _ | row, rest⟩ <;>
    simp only [Reader.next?, Reader.next, level.readRow?_eq, step, Option.map_some]

theorem pullRows?_of_end {index : Nat} {limit : Option Nat} {rest : Reader}
    (unspent : limit ≠ some 0) (step : reader.next? = some (none, rest)) :
    reader.pullRows? index limit = some ([], rest) := by
  rw [pullRows?, if_neg unspent]
  split <;> simp_all

theorem pullRows?_of_item {index : Nat} {limit : Option Nat} {item : Except Error Row}
    {shown : Except Error (Row × String)} {others : List (Except Error (Row × String))}
    {rest last : Reader} (unspent : limit ≠ some 0) (step : reader.next? = some (some item, rest))
    (there : withCell? index item = some shown)
    (later : rest.pullRows? index (limit.map (· - 1)) = some (others, last)) :
    reader.pullRows? index limit = some (shown :: others, last) := by
  rw [pullRows?, if_neg unspent]
  split <;> simp_all

/-- The cells of a column within the row length are all there. -/
theorem Level.pullRows?_eq (level : reader.Level) {index : Nat} (inside : index < reader.rowLength)
    (limit : Option Nat) :
    reader.pullRows? index limit =
      some ((reader.pull limit).1.map fun item => item.map fun row => (row, row.cell index),
        (reader.pull limit).2) := by
  -- A step leaves a level reader of the same row length, so the column is inside later rows as well.
  fun_induction Reader.pull limit reader with
  | case1 reader =>
    rw [pullRows?, if_pos rfl]
    rfl
  | case2 limit reader unspent rest step =>
    rw [pullRows?_of_end unspent (level.next?_eq.trans (congrArg some step))]
    rfl
  | case3 limit reader unspent item rest step items last pulled ih =>
    have left := level.next
    have shape := shape_next reader
    obtain ⟨_, length⟩ := level.toEven.next
    rw [step] at left shape length
    have still : index < rest.rowLength :=
      lt_of_lt_of_eq inside (congrArg Shape.rowLength shape).symm
    have shown : withCell? index item = some (item.map fun row => (row, row.cell index)) := by
      cases item with
      | error error => rfl
      | ok row =>
        have there : index < row.length := lt_of_lt_of_eq inside (length row rfl).symm
        simp [withCell?, Row.cell, there, Except.map]
    rw [pulled] at ih
    exact pullRows?_of_item unspent (level.next?_eq.trans (congrArg some step)) shown
      (ih left still)

theorem fillBuffer?_of_row {budget used : Nat} {others : List Row} {rest : Reader}
    (step : reader.nextExpanded? = some (.ok (some row), rest)) :
    reader.fillBuffer? budget used others =
      if budget < used + row.footprint then
        some (.ok { rest with buffer := (row :: others).reverse })
      else rest.fillBuffer? budget (used + row.footprint) (row :: others) := by
  rw [fillBuffer?]
  split
  next stopped => simp [step] at stopped
  next failed => simp [step] at failed
  next ended => simp [step] at ended
  next found =>
    obtain ⟨rfl, rfl⟩ : _ = row ∧ _ = rest := by simpa using found.symm.trans step
    rfl

theorem Level.fillBuffer?_eq (level : reader.Level) (budget used : Nat) (others : List Row) :
    reader.fillBuffer? budget used others = some (reader.fillBuffer budget used others) := by
  fun_induction Reader.fillBuffer budget used others reader with
  | case1 used others reader error rest step =>
    have strict := level.nextExpanded?_eq.trans (congrArg some step)
    rw [fillBuffer?]
    split <;> simp_all
  | case2 used others reader rest step =>
    have strict := level.nextExpanded?_eq.trans (congrArg some step)
    rw [fillBuffer?]
    split <;> simp_all
  | case3 used others reader row rest step spent =>
    rw [fillBuffer?_of_row (level.nextExpanded?_eq.trans (congrArg some step)), if_pos spent]
  | case4 used others reader row rest step spent ih =>
    have left := level.nextExpanded
    rw [step] at left
    rw [fillBuffer?_of_row (level.nextExpanded?_eq.trans (congrArg some step)), if_neg spent]
    exact ih left

theorem Level.prebuffered?_eq (level : reader.Level) (budget : Option Nat) :
    reader.prebuffered? budget = some (Reader.prebuffered budget reader) := by
  cases budget with
  | none => rfl
  | some budget => exact level.fillBuffer?_eq budget 0 []

theorem Level.settle?_eq (level : reader.Level) : reader.settle? = some reader.settle := by
  cases buffered : reader.buffer with
  | cons row rows => simp only [Reader.settle?, Reader.settle, buffered]
  | nil =>
    rcases step : reader.nextExpanded with ⟨error | _ | row, rest⟩ <;>
      simp only [Reader.settle?, Reader.settle, buffered, level.nextExpanded?_eq, step,
        Option.map_some]

/-- Building never stops, whether it succeeds or fails. -/
theorem build?_eq (options : ReaderOptions) (source : Source) (delimiter : UInt8) :
    build? options source delimiter = some (build options source delimiter) := by
  rcases step : source.next with ⟨error | _ | first, rest⟩
  · simp only [build?, build, step]
  · simp only [build?, build, step]
  · have start := level_ofFirstRow options first rest delimiter
    rw [build_of_first step]
    simp only [build?, step]
    cases divided : multiplexed options.multiplex (ofFirstRow options first rest delimiter) with
    | error error => rfl
    | ok configured =>
      have level := start.multiplexed divided
      simp only [level.prebuffered?_eq, Outcome.ok_bind]
      cases ahead : Reader.prebuffered options.prebuffer configured with
      | error error => rfl
      | ok filled => exact (level.prebuffered ahead).settle?_eq

/-- A call on a level reader never stops. -/
theorem Level.ask?_eq (level : reader.Level) (visit : Visit) :
    visit.ask? reader = some (visit.answer reader, (visit.ask reader).2) := by
  cases visit with
  | look asked =>
    cases asked with
    | peek => simp only [Visit.ask?, level.peek?_eq]; rfl
    | read => simp only [Visit.ask?, level.readRow?_eq]; rfl
  | cells key limit =>
    cases found : reader.requiredColumn key with
    | error error => simp only [Visit.ask?, Visit.answer, Visit.ask, found]; rfl
    | ok index =>
      have inside := level.toEven.columnIndex_lt (requiredColumn_eq_ok_iff.mp found)
      have shown : ((reader.pull limit).1.map fun item => item.map fun row =>
          (row, row.cell index)).map (fun item => item.map Prod.snd) =
          (reader.pullCells limit index).1 := by
        simp only [pullCells, List.map_map]
        refine List.map_congr_left fun item _ => ?_
        cases item <;> rfl
      simp only [Visit.ask?, Visit.answer, Visit.ask, found, level.pullRows?_eq inside,
        Option.map_some, shown]
      rfl
  | cellsWithRows key limit =>
    cases found : reader.requiredColumn key with
    | error error => simp only [Visit.ask?, Visit.answer, Visit.ask, found]; rfl
    | ok index =>
      have inside := level.toEven.columnIndex_lt (requiredColumn_eq_ok_iff.mp found)
      simp only [Visit.ask?, Visit.answer, Visit.ask, found, level.pullRows?_eq inside]
      rfl

theorem Level.answers?_eq (level : reader.Level) (visits : List Visit) :
    reader.answers? visits = some (reader.answers visits) := by
  induction visits generalizing reader with
  | nil => rfl
  | cons visit visits ih =>
    simp [answers?, level.ask?_eq visit, ih (level.ask visit), answers]

/-- Building a reader and calling it never looks behind the end of a row. Whatever calls are made on a
reader that was built, the rows they take and the rows it then holds are as long as the header row,
and no column lies outside: not one that a key resolves to and not the one that is split. -/
theorem calls_stay_inside (options : ReaderOptions) (source : Source) (delimiter : UInt8) :
    build? options source delimiter = some (build options source delimiter) ∧
      ∀ reader, build options source delimiter = .ok reader →
        (∀ names ∈ reader.fieldnames, names.length = reader.rowLength) ∧
          ∀ visits,
            reader.answers? visits = some (reader.answers visits) ∧
              (∀ row ∈ reader.taken visits, row.length = reader.rowLength) ∧
              (∀ row ∈ (reader.visited visits).held, row.length = reader.rowLength) ∧
              (∀ key index, (reader.visited visits).columnIndex key = .ok index →
                index < reader.rowLength) ∧
              (∀ index separator, (reader.visited visits).split = some (index, separator) →
                index < reader.rowLength) ∧
              (reader.visited visits).shape = reader.shape := by
  refine ⟨build?_eq options source delimiter, fun reader built => ?_⟩
  have level := level_of_build built
  refine ⟨fun names named => ?_, fun visits => ?_⟩
  · obtain ⟨headers, present, rfl⟩ := Option.map_eq_some_iff.mp named
    exact (level.headed headers present).1
  · obtain ⟨left, taken⟩ := level.visited visits
    have shape := (exposed_spec visits reader).2
    have same : (reader.visited visits).rowLength = reader.rowLength :=
      congrArg Shape.rowLength shape
    refine ⟨level.answers?_eq visits, taken, fun row member => ?_, fun key index found => ?_,
      fun index separator divided => ?_, shape⟩
    · exact (left.length_of_mem_held member).trans same
    · exact lt_of_lt_of_eq (left.toEven.columnIndex_lt found) same
    · exact lt_of_lt_of_eq (left.inside index separator divided) same

/-- The second row has no cell to divide. It is refused before anything looks for one, and the row
behind it is still looked at and read. -/
theorem calls_stay_inside_sample :
    let options : ReaderOptions := { multiplex := some ⟨.named "tags", "|", some "tag"⟩ }
    let source : Source := .listed [["name", "tags"], ["ann", "x|y"], ["bob"], ["cid", "z"]]
    let looks : List Visit := [.look .read, .look .read, .look .peek, .look .peek]
    let visits := looks ++ [.cells (.named "tag") none]
    ∃ reader : Reader,
      build options source 0x2C = .ok reader ∧
        reader.rowLength = 2 ∧ reader.split = some (1, "|") ∧
        reader.taken looks = [["ann", "x"], ["ann", "y"], ["cid", "z"]] ∧
        reader.answers? visits = some (reader.answers visits) ∧
        (∀ row ∈ reader.taken visits, row.length = 2) ∧
        (∀ row ∈ (reader.visited visits).held, row.length = 2) ∧
        ∀ names ∈ reader.fieldnames, names.length = 2 := by
  intro options source looks visits
  have known : (build options source 0x2C).map
      (fun reader => (reader.rowLength, reader.split, reader.taken looks)) =
      .ok (2, some (1, "|"), [["ann", "x"], ["ann", "y"], ["cid", "z"]]) := by
    decide +kernel
  obtain ⟨reader, built, same⟩ := Outcome.map_eq_ok_iff.mp known
  obtain ⟨-, inside⟩ := calls_stay_inside options source 0x2C
  obtain ⟨named, called⟩ := inside reader built
  obtain ⟨answered, taken, held, -, -, -⟩ := called visits
  simp only [Prod.mk.injEq] at same
  obtain ⟨length, split, some_taken⟩ := same
  rw [length] at named taken held
  exact ⟨reader, built, length, split, some_taken, answered, taken, held, named⟩

end ResumableCsv.Reader
