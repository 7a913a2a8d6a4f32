import ResumableCsv.Proofs.Reader.Built
import ResumableCsv.Proofs.Reader.Visits

/-!
Rows of one length. Building a reader and every call made on it keep all rows that are held, in front
of the reader or in it, at the length it announces, and the split column within that length; so every
row that a call takes has that length as well.
-/

namespace ResumableCsv.Reader

/-- Everything a reader holds fits its row length: the header row, the rows read ahead, also the one
that was read to learn the length, the rows left of a split, and the column that is split. -/
structure Level (reader : Reader) : Prop extends reader.Even where
  looked : ∀ row ∈ reader.lookahead, row.length = reader.rowLength
  inside : ∀ index separator, reader.split = some (index, separator) → index < reader.rowLength

/-- All rows that a reader holds. -/
def held (reader : Reader) : List Row :=
  reader.lookahead.toList ++ reader.buffer ++ reader.expanded

variable {reader rest : Reader} {row : Row}

theorem Level.length_of_mem_held (level : reader.Level) (member : row ∈ reader.held) :
    row.length = reader.rowLength := by
  rcases List.mem_append.mp member with member | divided
  · rcases List.mem_append.mp member with looked | buffered
    · exact level.looked row (Option.mem_toList.mp looked)
    · exact level.buffered row buffered
  · exact level.divided row divided

/-- A step that keeps the rows even and sets no other row aside keeps a reader level. -/
theorem Level.of_step (level : reader.Level) (even : rest.Even) (shape : rest.shape = reader.shape)
    (looked : ∀ row ∈ rest.lookahead, row ∈ reader.lookahead) : rest.Level := by
  have rowLength : rest.rowLength = reader.rowLength := congrArg Shape.rowLength shape
  have split : rest.split = reader.split := congrArg Shape.split shape
  refine ⟨even, fun row member => ?_, ?_⟩
  · exact (level.looked row (looked row member)).trans rowLength.symm
  · rw [rowLength, split]
    exact level.inside

theorem lookahead_takeRaw (reader : Reader) : reader.takeRaw.2.lookahead = none := by
  unfold takeRaw
  split
  next => rfl
  next absent => exact absent

theorem lookahead_nextSourceRow (reader : Reader) : reader.nextSourceRow.2.lookahead = none := by
  have taken := lookahead_takeRaw reader
  unfold nextSourceRow
  split <;> simp_all

/-- The row that was set aside is taken before any other row of the source. -/
theorem lookahead_nextExpanded (reader : Reader) :
    ∀ row ∈ reader.nextExpanded.2.lookahead, row ∈ reader.lookahead := by
  have taken := lookahead_nextSourceRow reader
  unfold nextExpanded
  split
  · exact fun _ => id
  · split <;> simp_all

theorem lookahead_readRow (reader : Reader) :
    ∀ row ∈ reader.readRow.2.lookahead, row ∈ reader.lookahead := by
  have taken := lookahead_nextExpanded reader
  unfold readRow
  split
  · exact fun _ => id
  · split <;> simp_all
  · exact fun _ => id

theorem lookahead_peek (reader : Reader) :
    ∀ row ∈ reader.peek.2.lookahead, row ∈ reader.lookahead := by
  have taken := lookahead_nextExpanded reader
  unfold peek
  split
  · exact fun _ => id
  · split <;> simp_all
  · exact fun _ => id

theorem Level.nextExpanded (level : reader.Level) : reader.nextExpanded.2.Level :=
  level.of_step level.toEven.nextExpanded.1 (shape_nextExpanded reader)
    (lookahead_nextExpanded reader)

theorem Level.readRow (level : reader.Level) : reader.readRow.2.Level :=
  level.of_step level.toEven.readRow.1 (shape_readRow reader) (lookahead_readRow reader)

theorem Level.peek (level : reader.Level) : reader.peek.2.Level :=
  level.of_step level.toEven.peek.1 (shape_peek reader) (lookahead_peek reader)

theorem next_snd (reader : Reader) : reader.next.2 = reader.readRow.2 := by
  unfold next
  split <;> simp_all

theorem Level.next (level : reader.Level) : reader.next.2.Level := by
  rw [next_snd]
  exact level.readRow

/-- Iterating takes rows of the announced length and leaves a level reader. -/
theorem Level.pull (level : reader.Level) (limit : Option Nat) :
    (reader.pull limit).2.Level ∧
      ∀ row, .ok row ∈ (reader.pull limit).1 → row.length = reader.rowLength := by
  fun_induction Reader.pull limit reader with
  | case1 => exact ⟨level, by simp⟩
  | case2 limit reader _ rest step =>
    have left := level.next
    rw [step] at left
    exact ⟨left, by simp⟩
  | case3 limit reader _ item rest step items last pulled ih =>
    have left := level.next
    have shape := shape_next reader
    obtain ⟨_, first⟩ := level.toEven.next
    rw [step] at left shape first
    rw [pulled] at ih
    obtain ⟨leaves, others⟩ := ih left
    refine ⟨leaves, fun row member => ?_⟩
    rcases List.mem_cons.mp member with same | member
    · exact first row (by rw [same])
    · exact (others row member).trans (congrArg Shape.rowLength shape)

/-- The rows that a call takes; of some it hands out a cell only. -/
def Visit.taken : Visit → Reader → List Row
  | .look asked, reader => (asked.ask reader).1.toOption.join.toList
  | .cells key limit, reader | .cellsWithRows key limit, reader =>
    match reader.requiredColumn key with
    | .error _ => []
    | .ok _ => rowsOf (reader.pull limit).1

/-- The rows that some calls take. -/
def taken : List Visit → Reader → List Row
  | [], _ => []
  | visit :: visits, reader => visit.taken reader ++ taken visits (visit.ask reader).2

/-- A call leaves a level reader. -/
theorem Level.ask (level : reader.Level) (visit : Visit) : (visit.ask reader).2.Level := by
  cases visit with
  | look asked =>
    cases asked with
    | peek => exact level.peek
    | read => exact level.readRow
  | cells key limit | cellsWithRows key limit =>
    simp only [Visit.ask]
    split
    · exact level
    · exact (level.pull limit).1

theorem Level.length_of_mem_taken (level : reader.Level) {visit : Visit}
    (member : row ∈ visit.taken reader) : row.length = reader.rowLength := by
  cases visit with
  | look asked =>
    have answered : (asked.ask reader).1 = .ok (some row) := by
      simp only [Visit.taken, Option.mem_toList] at member
      cases answer : (asked.ask reader).1 with
      | error error => simp [answer, Except.toOption] at member
      | ok found => simp_all [Except.toOption]
    cases asked with
    | peek => exact level.toEven.peek.2 row answered
    | read => exact level.toEven.readRow.2 row answered
  | cells key limit | cellsWithRows key limit =>
    simp only [Visit.taken] at member
    split at member
    · cases member
    · exact (level.pull limit).2 row (mem_rowsOf.mp member)

/-- Whatever calls are made, the rows they take have the announced length, and so have all rows that
are held afterwards. -/
theorem Level.visited (level : reader.Level) (visits : List Visit) :
    (reader.visited visits).Level ∧ ∀ row ∈ reader.taken visits, row.length = reader.rowLength := by
  -- A call leaves a level reader of the same shape, so the later calls start from one as well.
  induction visits generalizing reader with
  | nil => exact ⟨level, by simp [Reader.taken]⟩
  | cons visit visits ih =>
    have same := congrArg Shape.rowLength (visit_spec visit reader).2.2
    obtain ⟨leaves, later⟩ := ih (level.ask visit)
    refine ⟨leaves, fun row member => ?_⟩
    rcases List.mem_append.mp member with member | member
    · exact level.length_of_mem_taken member
    · exact (later row member).trans same

theorem lookahead_fillBuffer {budget used : Nat} {others : List Row} {filled : Reader}
    (built : reader.fillBuffer budget used others = .ok filled) :
    ∀ row ∈ filled.lookahead, row ∈ reader.lookahead := by
  have taken := lookahead_nextExpanded reader
  fun_induction Reader.fillBuffer budget used others reader with
  | case1 => cases built
  | case2 used others reader rest step =>
    rw [step] at taken
    cases built
    exact taken
  | case3 used others reader row rest step spent =>
    rw [step] at taken
    cases built
    exact taken
  | case4 used others reader row rest step spent ih =>
    rw [step] at taken
    exact fun row member => taken row (ih built (lookahead_nextExpanded rest) row member)

theorem lookahead_settle {settled : Reader} (built : reader.settle = .ok settled) :
    ∀ row ∈ settled.lookahead, row ∈ reader.lookahead := by
  have taken := lookahead_nextExpanded reader
  unfold Reader.settle at built
  split at built
  · cases built
    exact fun _ => id
  · split at built <;> cases built <;> simp_all

theorem Level.prebuffered (level : reader.Level) {budget : Option Nat} {filled : Reader}
    (ahead : Reader.prebuffered budget reader = .ok filled) : filled.Level := by
  cases budget with
  | none =>
    cases ahead
    exact level
  | some budget =>
    exact level.of_step (level.toEven.prebuffered ahead) (shape_fillBuffer ahead)
      (lookahead_fillBuffer ahead)

theorem Level.settle (level : reader.Level) {settled : Reader}
    (built : reader.settle = .ok settled) : settled.Level :=
  level.of_step (level.toEven.settle built) (shape_settle built) (lookahead_settle built)

/-- The column that is split is looked up in the header row as it stands before the rename. -/
theorem Level.multiplexed (level : reader.Level) {multiplex : Option Multiplex}
    {configured : Reader} (divided : Reader.multiplexed multiplex reader = .ok configured) :
    configured.Level := by
  have even := level.toEven.multiplexed divided
  cases multiplex with
  | none =>
    cases divided
    exact level
  | some multiplex =>
    obtain ⟨index, headers, found, _, _, rfl⟩ := configureMultiplex_eq_ok_iff.mp divided
    refine ⟨even, level.looked, fun other separator split => ?_⟩
    cases split
    exact level.toEven.columnIndex_lt found

theorem level_ofFirstRow (options : ReaderOptions) (first : Row) (source : Source)
    (delimiter : UInt8) : (ofFirstRow options first source delimiter).Level := by
  refine ⟨even_ofFirstRow options first source delimiter, ?_, ?_⟩ <;>
    cases headed : options.noHeaders <;> simp [ofFirstRow, headed]

/-- A reader that could be built is level. -/
theorem level_of_build {options : ReaderOptions} {source : Source} {delimiter : UInt8}
    (built : build options source delimiter = .ok reader) : reader.Level := by
  obtain ⟨first, rest, configured, _, divided, finished⟩ := exists_of_build built
  obtain ⟨filled, ahead, settled⟩ := Outcome.do_eq_ok_iff.mp finished
  have start := level_ofFirstRow options first rest delimiter
  exact ((start.multiplexed divided).prebuffered ahead).settle settled

end ResumableCsv.Reader
