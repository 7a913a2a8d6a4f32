import ResumableCsv.Defaults
import ResumableCsv.Reader.Basic

/-!
Opening readers on files, on bytes and on rows, and counting the rows of a file without keeping
them. The delimiter is the one asked for, else the one a file's extension implies, else a guess from
its first block.
-/

namespace ResumableCsv

structure ReaderOptions where
  delimiter : Option UInt8 := none
  quote : UInt8 := 0x22
  noHeaders : Bool := false
  prebuffer : Option Nat := none
  multiplex : Option Multiplex := none
  nuls : NulPolicy := .keep
  encoding : Encoding := .utf8

def Defaults.readerOptions (defaults : Defaults) : ReaderOptions :=
  { prebuffer := defaults.prebuffer, nuls := defaults.readNuls }

namespace Reader

/-- Names the split column anew; every column of its name is renamed with it. -/
def renameSplit (headers : Option Headers) (index : Nat) (newColumn : Option String) :
    Except Error (Option Headers) :=
  match newColumn, headers with
  | none, headers => .ok headers
  | some _, none => .error (.headersRequired .renameMultiplexed)
  | some new, some headers => do
    let old ← headers.nameAt index
    pure (some (headers.rename old new))

def configureMultiplex (multiplex : Multiplex) (reader : Reader) : Except Error Reader := do
  let index ← reader.requiredColumn multiplex.column
  if multiplex.separator = "" then .error (.invalidConfiguration .emptySeparator)
  else
    let headers ← renameSplit reader.headers index multiplex.newColumn
    pure { reader with headers := headers, split := some (index, multiplex.separator) }

/-- Reads rows ahead until they occupy more than the budget; the total is known when the source
ends before that. -/
def fillBuffer (budget used : Nat) (held : List Row) (reader : Reader) : Except Error Reader :=
  match _step : reader.nextExpanded with
  | (.error error, _) => .error error
  | (.ok none, rest) => .ok { rest with buffer := held.reverse, total := some held.length }
  | (.ok (some row), rest) =>
    if budget < used + row.footprint then .ok { rest with buffer := (row :: held).reverse }
    else fillBuffer budget (used + row.footprint) (row :: held) rest
termination_by reader.ahead
decreasing_by
  have earlier := ahead_nextExpanded reader
  rw [_step] at earlier
  exact earlier (by simp)

/-- Holds one row back, so that a source without any is known to be empty. -/
def settle (reader : Reader) : Except Error Reader :=
  match reader.buffer with
  | _ :: _ => .ok reader
  | [] =>
    match reader.nextExpanded with
    | (.error error, _) => .error error
    | (.ok none, rest) => .ok { rest with phase := .empty }
    | (.ok (some row), rest) => .ok { rest with buffer := [row] }

/-- A reader on a source whose first row has been read already. -/
def ofFirstRow (options : ReaderOptions) (first : Row) (source : Source) (delimiter : UInt8) :
    Reader :=
  if options.noHeaders then
    { source := source, headers := none, rowLength := first.length, delimiter := delimiter,
      lookahead := some first, nuls := options.nuls }
  else
    { source := source, headers := some (.ofNames first), rowLength := first.length,
      delimiter := delimiter, nuls := options.nuls }

def build (options : ReaderOptions) (source : Source) (delimiter : UInt8) :
    Except Error Reader :=
  match source.next with
  | (.error error, _) => .error error
  | (.ok none, _) => .error .emptyFile
  | (.ok (some first), rest) => do
    let reader := ofFirstRow options first rest delimiter
    let reader ←
      match options.multiplex with
      | some multiplex => reader.configureMultiplex multiplex
      | none => pure reader
    let reader ←
      match options.prebuffer with
      | some budget => reader.fillBuffer budget 0 []
      | none => pure reader
    reader.settle

def ofBlocks (options : ReaderOptions) (blocks : List Bytes) (fault : Option IoFault)
    (delimiter : UInt8) : Except Error Reader :=
  let text := parsedText options.nuls blocks
  build options (.text ⟨delimiter, options.quote⟩ options.encoding ⟨text, fault⟩) delimiter

end Reader

namespace ReaderOptions

def guessDelimiter (options : ReaderOptions) (path : String) (blocks : List Bytes) : UInt8 :=
  (options.delimiter.or ((Path.impliedDelimiter? path).or
    (Sniff.delimiter? (blocks.headD [])))).getD Path.comma

/-- Opens a file, or the console for a dash. -/
def openPath (options : ReaderOptions) (path : String) (work : Workspace) :
    Except Error Reader := do
  let input ← (work.openInput path).mapError .io
  let blocks ← input.blocks
  Reader.ofBlocks options blocks input.fault (options.guessDelimiter path blocks)

def openBytes (options : ReaderOptions) (content : Bytes) : Except Error Reader := do
  let blocks ← Input.blocks ⟨content, none⟩
  Reader.ofBlocks options blocks none (options.delimiter.getD Path.comma)

/-- Reads rows that are split already; the first is the header unless there is none. -/
def openRows (options : ReaderOptions) (rows : List Row) : Except Error Reader :=
  Reader.build options (.listed rows) (options.delimiter.getD Path.comma)

/-- Counts records up to the end, or gives up once more than the limit are data rows. -/
def countRecords (dialect : Dialect) (headerRows : Nat) (limit : Option Nat) (seen : Nat)
    (input : Input) : Except Error (Option Nat) :=
  match _scan : Record.scanRecord dialect input.content, input.fault with
  | none, none => .ok (some (seen - headerRows))
  | none, some fault => .error (.csv fault)
  | some scanned, fault =>
    if scanned.ending = .inputEnd ∧ fault.isSome = true then
      .error (.csv (fault.getD .unexpectedEnd))
    else if limit.any fun most => most < seen + 1 - headerRows then .ok none
    else countRecords dialect headerRows limit (seen + 1) ⟨scanned.rest, fault⟩
termination_by input.content.length
decreasing_by exact Record.scanRecord_rest _scan

/-- The number of data rows of a file, unknown when there are more than the limit. -/
def count (options : ReaderOptions) (path : String) (limit : Option Nat) (work : Workspace) :
    Except Error (Option Nat) := do
  let input ← (work.openInput path).mapError .io
  let blocks ← input.blocks
  let dialect : Dialect := ⟨options.guessDelimiter path blocks, options.quote⟩
  countRecords dialect (!options.noHeaders).toNat limit 0 ⟨parsedText .keep blocks, input.fault⟩

end ReaderOptions

end ResumableCsv
