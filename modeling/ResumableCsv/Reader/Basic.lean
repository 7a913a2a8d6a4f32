import ResumableCsv.Reader.Source
import ResumableCsv.Selection.Resolve
import ResumableCsv.Headers.Projection
import ResumableCsv.Headers.RowView

/-!
Forward readers. The header row is set apart, every later row must have its length, one column may
be split so that a row stands for several, and rows can be looked at before they are taken. A reader
that has reported the end or an error of its source hands out nothing more.
-/

namespace ResumableCsv

/-- A column to split on a separator, and the name it then goes by. -/
structure Multiplex where
  column : ColumnKey
  separator : String
  newColumn : Option String := none
deriving DecidableEq, Repr

inductive Reader.Phase
  | ready
  | empty
  | exhausted
deriving DecidableEq, Repr

structure Reader where
  source : Source
  headers : Option Headers
  rowLength : Nat
  delimiter : UInt8
  phase : Reader.Phase := .ready
  /-- The first row of a source without headers, read to learn the row length. -/
  lookahead : Option Row := none
  /-- Rows read ahead, split already. -/
  buffer : List Row := []
  /-- What is left of a row that was split. -/
  expanded : List Row := []
  split : Option (Nat × String) := none
  nuls : NulPolicy := .keep
  total : Option Nat := none

/-- The memory a row is taken to occupy. -/
def Row.footprint (row : Row) : Nat :=
  row.foldr (fun cell size => 24 + cell.utf8ByteSize + size) 24

/-- One row for every piece of the cell at `index`. -/
def Row.multiplex (index : Nat) (separator : String) (row : Row) : List Row :=
  (Text.splitOn separator.toList (row.cell index).toList).map fun piece =>
    row.set index (String.ofList piece)

namespace Reader

def unread (reader : Reader) : Nat :=
  reader.source.size + if reader.lookahead.isSome then 1 else 0

def takeRaw (reader : Reader) : Except Error (Option Row) × Reader :=
  match reader.lookahead with
  | some row => (.ok (some row), { reader with lookahead := none })
  | none =>
    let (outcome, source) := reader.source.next
    (outcome, { reader with source := source })

/-- A row of the wrong length is refused before its NUL characters are looked at. -/
def check (reader : Reader) (row : Row) : Except Error Row :=
  if row.length = reader.rowLength then reader.nuls.apply row
  else .error (.rowLengthMismatch reader.rowLength row.length)

def nextSourceRow (reader : Reader) : Except Error (Option Row) × Reader :=
  match reader.takeRaw with
  | (.ok (some row), rest) => ((rest.check row).map some, rest)
  | (.ok none, rest) => (.ok none, rest)
  | (.error error, rest) => (.error error, rest)

def splitRow (reader : Reader) (row : Row) : List Row :=
  match reader.split with
  | none => [row]
  | some (index, separator) => row.multiplex index separator

def nextExpanded (reader : Reader) : Except Error (Option Row) × Reader :=
  match reader.expanded with
  | row :: rows => (.ok (some row), { reader with expanded := rows })
  | [] =>
    match reader.nextSourceRow with
    | (.ok (some row), rest) =>
      (.ok (rest.splitRow row).head?, { rest with expanded := (rest.splitRow row).tail })
    | (.ok none, rest) => (.ok none, rest)
    | (.error error, rest) => (.error error, rest)

/-- The next row, or nothing at the end. -/
def readRow (reader : Reader) : Except Error (Option Row) × Reader :=
  match reader.phase, reader.buffer with
  | .ready, row :: rows => (.ok (some row), { reader with buffer := rows })
  | .ready, [] =>
    match reader.nextExpanded with
    | (.ok (some row), rest) => (.ok (some row), rest)
    | (.ok none, rest) => (.ok none, { rest with phase := .exhausted })
    | (.error error, rest) => (.error error, { rest with phase := .exhausted })
  | _, _ => (.ok none, reader)

/-- Looks at the next row without taking it. -/
def peek (reader : Reader) : Except Error (Option Row) × Reader :=
  match reader.phase, reader.buffer with
  | .ready, row :: _ => (.ok (some row), reader)
  | .ready, [] =>
    match reader.nextExpanded with
    | (.ok (some row), rest) => (.ok (some row), { rest with buffer := [row] })
    | (.ok none, rest) => (.ok none, rest)
    | (.error error, rest) => (.error error, rest)
  | _, _ => (.ok none, reader)

/-- Reading as iteration: a row, an error, or nothing more. -/
def next (reader : Reader) : Option (Except Error Row) × Reader :=
  match reader.readRow with
  | (.ok (some row), rest) => (some (.ok row), rest)
  | (.ok none, rest) => (none, rest)
  | (.error error, rest) => (some (.error error), rest)

theorem unread_takeRaw_lt (reader : Reader) (found : reader.takeRaw.1 ≠ .ok none) :
    reader.takeRaw.2.unread < reader.unread := by
  unfold takeRaw at found ⊢
  split
  next row held => simp [unread, held]
  next held =>
    simp only [held] at found
    have smaller := Source.size_next_lt found
    simpa [unread, held] using smaller

theorem unread_nextSourceRow_lt (reader : Reader) (found : reader.nextSourceRow.1 ≠ .ok none) :
    reader.nextSourceRow.2.unread < reader.unread := by
  have taken := unread_takeRaw_lt reader
  unfold nextSourceRow at found ⊢
  split at found <;> simp_all

/-- What bounds the rows still to come: the unread source first, then the rows held. -/
def measure (reader : Reader) : Nat × Nat :=
  match reader.phase with
  | .ready => (reader.unread + 1, reader.buffer.length + reader.expanded.length)
  | _ => (0, 0)

abbrev Before (reader other : Reader) : Prop :=
  Prod.Lex (· < ·) (· < ·) reader.measure other.measure

theorem kept_takeRaw (reader : Reader) :
    reader.takeRaw.2.phase = reader.phase ∧ reader.takeRaw.2.buffer = reader.buffer ∧
      reader.takeRaw.2.expanded = reader.expanded := by
  unfold takeRaw
  split <;> simp

theorem kept_nextSourceRow (reader : Reader) :
    reader.nextSourceRow.2.phase = reader.phase ∧ reader.nextSourceRow.2.buffer = reader.buffer ∧
      reader.nextSourceRow.2.expanded = reader.expanded := by
  have kept := kept_takeRaw reader
  unfold nextSourceRow
  split <;> simp_all

theorem kept_nextExpanded (reader : Reader) :
    reader.nextExpanded.2.phase = reader.phase ∧ reader.nextExpanded.2.buffer = reader.buffer := by
  have kept := kept_nextSourceRow reader
  unfold nextExpanded
  split
  · simp
  · split <;> simp_all

/-- What bounds the rows that are not in the buffer. -/
def ahead (reader : Reader) : Nat × Nat := (reader.unread, reader.expanded.length)

/-- Taking a row uses up unread input or a row held back. -/
theorem ahead_nextExpanded (reader : Reader) (found : reader.nextExpanded.1 ≠ .ok none) :
    Prod.Lex (· < ·) (· < ·) reader.nextExpanded.2.ahead reader.ahead := by
  have smaller := unread_nextSourceRow_lt reader
  unfold nextExpanded at found ⊢
  split at found
  next row rows held => exact Prod.Lex.right _ (by simp [held])
  next =>
    split at found
    next row rest same =>
      rw [same] at smaller
      exact Prod.Lex.left _ _ (smaller (by simp))
    next => exact absurd rfl found
    next error rest same =>
      rw [same] at smaller
      exact Prod.Lex.left _ _ (smaller (by simp))

theorem before_nextExpanded {reader : Reader} (ready : reader.phase = .ready)
    (found : reader.nextExpanded.1 ≠ .ok none) : reader.nextExpanded.2.Before reader := by
  have kept := kept_nextExpanded reader
  simp only [Before, measure, kept.1, kept.2, ready]
  rcases Prod.lex_def.mp (ahead_nextExpanded reader found) with fewer | ⟨same, fewer⟩
  · exact Prod.Lex.left _ _ (Nat.succ_lt_succ fewer)
  · simp only [ahead] at same fewer
    rw [same]
    exact Prod.Lex.right _ (by omega)

theorem before_next (reader : Reader) (found : reader.next.1 ≠ none) :
    reader.next.2.Before reader := by
  unfold next readRow at found ⊢
  split at found
  next row rest same =>
    split at same
    next held ready buffered =>
      cases same
      simp only [Before, measure, ready, buffered, List.length_cons]
      exact Prod.Lex.right _ (by omega)
    next ready buffered =>
      have earlier := before_nextExpanded ready
      split at same
      next expanded =>
        cases same
        rw [expanded] at earlier
        exact earlier (by simp)
      next => cases same
      next => cases same
    next => cases same
  next => exact absurd rfl found
  next error rest same =>
    split at same
    next => cases same
    next ready buffered =>
      split at same
      next => cases same
      next => cases same
      next =>
        cases same
        simp only [Before, measure, ready]
        exact Prod.Lex.left _ _ (by omega)
    next => cases same

/-- A reader without a next item has come to its end. -/
theorem measure_of_next_none (reader : Reader) (ended : reader.next.1 = none) :
    reader.next.2.measure = (0, 0) := by
  unfold next readRow at ended ⊢
  split at ended
  next => cases ended
  next rest same =>
    split at same
    next => cases same
    next =>
      split at same <;> cases same
      simp [measure]
    next ready held other =>
      cases same
      cases phase : reader.phase with
      | ready =>
        cases buffered : reader.buffer with
        | nil => exact absurd buffered (other phase)
        | cons row rows => exact absurd buffered (held row rows phase)
      | empty => simp [measure, phase]
      | exhausted => simp [measure, phase]
  next => cases ended

/-- Iterates up to the end, or up to a number of items. -/
def pull (limit : Option Nat) (reader : Reader) : List (Except Error Row) × Reader :=
  if limit = some 0 then ([], reader)
  else
    match _step : reader.next with
    | (none, rest) => ([], rest)
    | (some item, rest) =>
      let (items, last) := pull (limit.map (· - 1)) rest
      (item :: items, last)
termination_by reader.measure
decreasing_by
  have earlier := before_next reader
  rw [_step] at earlier
  exact earlier (by simp)

/-- All that is still to come. -/
def rows (reader : Reader) : List (Except Error Row) := (reader.pull none).1

/-- Resolves a column by the header row, or by position when there is none. -/
def columnIndex (reader : Reader) (key : ColumnKey) : Except Error Nat :=
  match reader.headers, key with
  | some headers, key => headers.resolve key
  | none, .position index =>
    if index < reader.rowLength then .ok index
    else .error (.columnOutOfRange index reader.rowLength)
  | none, key => .error (.headersRequired (.findColumn key))

/-- Resolves a column that a caller asked for by name. -/
def requiredColumn (reader : Reader) (key : ColumnKey) : Except Error Nat :=
  (reader.columnIndex key).mapError (Error.asMissing key)

def select (reader : Reader) (selection : String) : Except Error (List Nat) :=
  match reader.headers with
  | some headers => headers.select selection
  | none => Selection.selectPositions reader.rowLength selection

def fieldnames (reader : Reader) : Option (List String) := reader.headers.map Headers.fieldnames

/-- At most a header row was there. -/
def isEmpty (reader : Reader) : Bool := reader.phase == .empty

def projection (reader : Reader) (template : Template) : Except Error Plan :=
  match reader.headers with
  | some headers => headers.project template
  | none => .error (.headersRequired .project)

def wrap (reader : Reader) (row : Row) : Except Error RowView :=
  match reader.headers with
  | some headers => .ok ⟨headers, row⟩
  | none => .error (.headersRequired .wrapRows)

/-- The cell of one column, for every row still to come. -/
def pullCells (limit : Option Nat) (index : Nat) (reader : Reader) :
    List (Except Error String) × Reader :=
  let (items, rest) := reader.pull limit
  (items.map fun item => item.map fun row => row.cell index, rest)

end Reader

end ResumableCsv
