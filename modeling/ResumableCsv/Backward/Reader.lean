import ResumableCsv.Backward.Tail
import ResumableCsv.Reader.Open

/-!
Backward readers: the header is read forward once, then rows come last row first. Lines are joined
while the quotes in them are odd in number, which puts records with line breaks together again. Row
lengths are not checked.
-/

namespace ResumableCsv

structure BackwardReader where
  tail : Tail
  headers : Option Headers
  dialect : Dialect
  encoding : Encoding
  nuls : NulPolicy
  chunkSize : Nat
  exhausted : Bool := false

def BackwardReader.defaultChunkSize : Nat := 8192

structure BackwardOptions where
  delimiter : Option UInt8 := none
  quote : UInt8 := 0x22
  noHeaders : Bool := false
  chunkSize : Nat := BackwardReader.defaultChunkSize
  nuls : NulPolicy := .keep
  encoding : Encoding := .utf8

def Defaults.backwardOptions (defaults : Defaults) : BackwardOptions :=
  { nuls := defaults.readNuls }

namespace BackwardReader

/-- How much of the start of a source is looked at for its delimiter. -/
def sampleSize : Nat := 4096

def stripReturn (line : Bytes) : Bytes :=
  if line.getLast? = some Record.carriageReturn then line.dropLast else line

/-- Puts earlier lines in front of a line while its quotes are odd in number. -/
def glue (quote : UInt8) (chunk : Nat) (offset : Nat) (line : Bytes) (tail : Tail) :
    (Nat × Bytes) × Tail :=
  if line.count quote % 2 = 1 then
    match _step : tail.nextLine chunk with
    | (none, rest) => ((offset, line), rest)
    | (some (earlier, previous), rest) =>
      glue quote chunk earlier (stripReturn previous ++ Record.lineFeed :: line) rest
  else ((offset, line), tail)
termination_by tail.remaining
decreasing_by
  have fewer := Tail.remaining_nextLine chunk tail
  rw [_step] at fewer
  exact fewer (by simp)

theorem remaining_glue (quote : UInt8) (chunk offset : Nat) (line : Bytes) (tail : Tail) :
    (glue quote chunk offset line tail).2.remaining ≤ tail.remaining := by
  have bound (other : Tail) : (other.nextLine chunk).2.remaining ≤ other.remaining :=
    (Tail.remaining_lineBefore chunk [] other).1
  fun_induction glue quote chunk offset line tail with
  | case1 offset line tail _ rest step =>
    have fewer := bound tail
    rw [step] at fewer
    exact fewer
  | case2 offset line tail _ earlier previous rest step ih =>
    have fewer := bound tail
    rw [step] at fewer
    exact Nat.le_trans ih fewer
  | case3 => exact Nat.le_refl _

/-- The bytes of the last record not handed out yet, and the offset it starts at; empty lines are
passed over. -/
def nextFrame (quote : UInt8) (chunk : Nat) (tail : Tail) : Option (Nat × Bytes) × Tail :=
  match _step : tail.nextLine chunk with
  | (none, rest) => (none, rest)
  | (some (offset, line), rest) =>
    if (stripReturn line).isEmpty then nextFrame quote chunk rest
    else
      let (frame, rest) := glue quote chunk offset (stripReturn line) rest
      (some frame, rest)
termination_by tail.remaining
decreasing_by
  have fewer := Tail.remaining_nextLine chunk tail
  rw [_step] at fewer
  exact fewer (by simp)

theorem remaining_nextFrame (quote : UInt8) (chunk : Nat) (tail : Tail)
    (found : (nextFrame quote chunk tail).1 ≠ none) :
    (nextFrame quote chunk tail).2.remaining < tail.remaining := by
  have bound (other : Tail) := Tail.remaining_nextLine chunk other
  fun_induction nextFrame quote chunk tail with
  | case1 tail rest step => exact absurd rfl found
  | case2 tail offset line rest step _ ih =>
    have fewer := bound tail
    rw [step] at fewer
    exact Nat.lt_trans (ih found) (fewer (by simp))
  | case3 tail offset line rest step _ frame last glued =>
    have fewer := bound tail
    have inner := remaining_glue quote chunk offset (stripReturn line) rest
    rw [step] at fewer
    rw [glued] at inner
    exact Nat.lt_of_le_of_lt inner (fewer (by simp))

/-- The row a frame stands for; only its first record counts. -/
def parse (reader : BackwardReader) (frame : Bytes) : Except Error Row :=
  match Record.scanRecord reader.dialect (dropMark frame) with
  | none => .ok []
  | some scanned => (decodeRow reader.encoding scanned.value).bind reader.nuls.apply

/-- The last row not handed out yet, and the offset it starts at. -/
def nextRecord (reader : BackwardReader) : Except Error (Option (Nat × Row)) × BackwardReader :=
  if reader.exhausted then (.ok none, reader)
  else
    match nextFrame reader.dialect.quote reader.chunkSize reader.tail with
    | (none, rest) => (.ok none, { reader with tail := rest, exhausted := true })
    | (some (offset, frame), rest) =>
      ((reader.parse frame).map fun row => some (offset, row), { reader with tail := rest })

def readRow (reader : BackwardReader) : Except Error (Option Row) × BackwardReader :=
  let (outcome, rest) := reader.nextRecord
  (outcome.map (·.map Prod.snd), rest)

/-- Reading as iteration, which an error ends. -/
def next (reader : BackwardReader) : Option (Except Error Row) × BackwardReader :=
  match reader.nextRecord with
  | (.ok (some (_, row)), rest) => (some (.ok row), rest)
  | (.ok none, rest) => (none, rest)
  | (.error error, rest) => (some (.error error), { rest with exhausted := true })

theorem remaining_nextRecord (reader : BackwardReader) (found : reader.nextRecord.1 ≠ .ok none) :
    reader.nextRecord.2.tail.remaining < reader.tail.remaining := by
  unfold nextRecord at found ⊢
  split at found
  · exact absurd rfl found
  · next running =>
    rw [if_neg running]
    split at found
    next => exact absurd rfl found
    next offset frame rest step =>
      have fewer := remaining_nextFrame reader.dialect.quote reader.chunkSize reader.tail
      rw [step] at fewer
      exact fewer (by simp)

theorem remaining_next (reader : BackwardReader) (found : reader.next.1 ≠ none) :
    reader.next.2.tail.remaining < reader.tail.remaining := by
  have fewer := remaining_nextRecord reader
  unfold next at found ⊢
  split at found
  next offset row rest step =>
    rw [step] at fewer
    exact fewer (by simp)
  next => exact absurd rfl found
  next error rest step =>
    rw [step] at fewer
    exact fewer (by simp)

/-- Iterates up to the end, or up to a number of items. -/
def pull (limit : Option Nat) (reader : BackwardReader) :
    List (Except Error Row) × BackwardReader :=
  if limit = some 0 then ([], reader)
  else
    match _step : reader.next with
    | (none, rest) => ([], rest)
    | (some item, rest) =>
      let (items, last) := pull (limit.map (· - 1)) rest
      (item :: items, last)
termination_by reader.tail.remaining
decreasing_by
  have fewer := remaining_next reader
  rw [_step] at fewer
  exact fewer (by simp)

/-- All rows still to come, last row first. -/
def rows (reader : BackwardReader) : List (Except Error Row) := (reader.pull none).1

def columnIndex (reader : BackwardReader) (key : ColumnKey) : Except Error Nat :=
  match reader.headers, key with
  | some headers, key => headers.resolve key
  | none, .position index => .ok index
  | none, key => .error (.headersRequired (.findColumn key))

def requiredColumn (reader : BackwardReader) (key : ColumnKey) : Except Error Nat :=
  (reader.columnIndex key).mapError (Error.asMissing key)

def fieldnames (reader : BackwardReader) : Option (List String) :=
  reader.headers.map Headers.fieldnames

end BackwardReader

namespace BackwardOptions

def headerNames (options : BackwardOptions) (names : List String) : List String :=
  if options.nuls = .strip then names.map NulPolicy.stripCell else names

/-- Reads the header record of `data`, and how many bytes are left behind it. -/
def readHeader (options : BackwardOptions) (dialect : Dialect) (data : Bytes) :
    Except Error (Headers × Nat) :=
  match Record.scanRecord dialect (dropMark data) with
  | none => .error .emptyFile
  | some scanned => do
    let names ← decodeRow options.encoding scanned.value
    pure (.ofNames (options.headerNames names), scanned.rest.length)

def openContent (options : BackwardOptions) (delimiter : Option UInt8) (content : Bytes) :
    Except Error BackwardReader :=
  if content.isEmpty then .error .emptyFile
  else do
    let sample := dropMark (content.take BackwardReader.sampleSize)
    let dialect : Dialect :=
      ⟨(delimiter.or (Sniff.delimiter? sample)).getD Path.comma, options.quote⟩
    let data := dropMark content
    let (headers, left) ←
      if options.noHeaders then pure (none, data.length)
      else (options.readHeader dialect data).map fun (headers, left) => (some headers, left)
    pure
      { tail := .ofData (content.length - left) (content.drop (content.length - left))
        headers := headers
        dialect := dialect
        encoding := options.encoding
        nuls := options.nuls
        chunkSize := options.chunkSize }

def openBytes (options : BackwardOptions) (content : Bytes) : Except Error BackwardReader :=
  options.openContent options.delimiter content

/-- Opens a file; a compressed one is unpacked whole first. -/
def openPath (options : BackwardOptions) (path : String) (work : Workspace) :
    Except Error BackwardReader := do
  let content ← (work.readUnpacked path).mapError .io
  options.openContent (options.delimiter.or (Path.impliedDelimiter? path)) content

/-- Opens a file, unless nothing is in it. -/
def openFilled (options : BackwardOptions) (path : String) (work : Workspace) :
    Except Error (Option BackwardReader) :=
  match options.openPath path work with
  | .ok reader => .ok (some reader)
  | .error .emptyFile => .ok none
  | .error error => .error error

/-- The last cell of one column, nothing when there is no row. -/
def lastCell (options : BackwardOptions) (path : String) (key : ColumnKey) (work : Workspace) :
    Except Error (Option String) := do
  match ← options.openFilled path work with
  | none => pure none
  | some reader =>
    let index ← reader.requiredColumn key
    match ← reader.readRow.1 with
    | none => pure none
    | some row =>
      if reader.headers.isNone ∧ row.length ≤ index then .error (.missingColumn key.label)
      else pure (some (row.cell index))

/-- The cells of the last row that a selection picks. -/
def lastCells (options : BackwardOptions) (path selection : String) (work : Workspace) :
    Except Error (Option (List String)) := do
  match ← options.openFilled path work with
  | none => pure none
  | some reader =>
    match ← reader.readRow.1 with
    | none => pure none
    | some row =>
      let indices ←
        match reader.headers with
        | some headers => headers.select selection
        | none => Selection.selectPositions row.length selection
      pure (some (indices.map row.cell))

end BackwardOptions

end ResumableCsv
