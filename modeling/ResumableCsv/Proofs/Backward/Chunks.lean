import ResumableCsv.Proofs.Backward.Finished
import ResumableCsv.Proofs.Backward.Twins
import ResumableCsv.Proofs.Backward.Window

/-!
What chunks have to do with reading from the end: nothing. Call after call the lines are the pieces
between the line feeds, last one first, each with the offset where it starts, whatever the bytes are
and however they arrive; so rows, errors and offsets are the same for any two sizes of the chunks.
-/

namespace ResumableCsv

open Record

/-- Pieces with one byte between any two of them, each with the offset where it starts. -/
def placedFrom (offset : Nat) : List Bytes → List (Nat × Bytes)
  | [] => []
  | piece :: pieces => (offset, piece) :: placedFrom (offset + piece.length + 1) pieces

/-- The lines of some data that starts at an offset: its pieces between the line feeds, but for an
empty piece at the start. -/
def linesFrom (offset : Nat) (data : Bytes) : List (Nat × Bytes) :=
  let pieces := placedFrom offset (data.splitOn lineFeed)
  if pieces.head? = some (offset, []) then pieces.tail else pieces

theorem placedFrom_append (offset : Nat) (pieces others : List Bytes) :
    placedFrom offset (pieces ++ others) = placedFrom offset pieces ++
      placedFrom (offset + (pieces.flatMap (· ++ [lineFeed])).length) others := by
  induction pieces generalizing offset with
  | nil => rfl
  | cons piece pieces ih =>
    rw [List.cons_append, placedFrom, placedFrom, ih, List.flatMap_cons, List.length_append,
      List.length_append, List.length_singleton, List.cons_append]
    simp only [Nat.add_assoc]

theorem splitOn_lineFeed_append (before : Bytes) {line : Bytes} (inner : lineFeed ∉ line) :
    (before ++ lineFeed :: line).splitOn lineFeed = before.splitOn lineFeed ++ [line] := by
  rw [List.splitOn, List.splitOnP_append_cons before line (by simp), ← List.splitOn,
    ← List.splitOn, List.splitOn_eq_singleton inner]

/-- Every piece is followed by a line feed or by the end. -/
theorem flatMap_splitOn_lineFeed (data : Bytes) :
    (data.splitOn lineFeed).flatMap (· ++ [lineFeed]) = data ++ [lineFeed] := by
  by_cases broken : lineFeed ∈ data
  · obtain ⟨before, line, split, inner⟩ := exists_last_lineFeed broken
    have shorter : before.length < data.length := by simp [split]
    rw [split, splitOn_lineFeed_append before inner, List.flatMap_append,
      flatMap_splitOn_lineFeed before]
    simp
  · simp [List.splitOn_eq_singleton broken]
termination_by data.length

theorem linesFrom_of_no_lineFeed (offset : Nat) {data : Bytes} (inner : lineFeed ∉ data) :
    linesFrom offset data = if data = [] then [] else [(offset, data)] := by
  simp [linesFrom, List.splitOn_eq_singleton inner, placedFrom]

/-- The last line stands behind the last line feed, and the others are those of what stands before
it. -/
theorem linesFrom_append (offset : Nat) (before : Bytes) {line : Bytes} (inner : lineFeed ∉ line) :
    linesFrom offset (before ++ lineFeed :: line) =
      linesFrom offset before ++ [(offset + before.length + 1, line)] := by
  have split : placedFrom offset ((before ++ lineFeed :: line).splitOn lineFeed) =
      placedFrom offset (before.splitOn lineFeed) ++ [(offset + before.length + 1, line)] := by
    rw [splitOn_lineFeed_append before inner, placedFrom_append, flatMap_splitOn_lineFeed]
    simp [placedFrom, Nat.add_assoc]
  rw [linesFrom, linesFrom, split]
  cases pieces : before.splitOn lineFeed with
  | nil => simpa [pieces] using flatMap_splitOn_lineFeed before
  | cons piece pieces => by_cases blank : piece = [] <;> simp [placedFrom, blank]

namespace Tail

/-- One call answers the last line, and the calls behind it answer those before. -/
theorem nextLine_eq (chunk : Nat) (tail : Tail) :
    (tail.nextLine chunk).1 = (linesFrom tail.floor tail.data).getLast? ∧
      (tail.nextLine chunk).2.floor = tail.floor ∧
      linesFrom tail.floor (tail.nextLine chunk).2.data =
        (linesFrom tail.floor tail.data).dropLast := by
  by_cases broken : lineFeed ∈ tail.data
  · obtain ⟨before, line, split, inner⟩ := exists_last_lineFeed broken
    obtain ⟨rest, step, data, floor⟩ := nextLine_of_lineFeed chunk split inner
    rw [step, data, split, linesFrom_append tail.floor before inner, List.getLast?_concat,
      List.dropLast_concat]
    exact ⟨rfl, floor, rfl⟩
  · obtain ⟨rest, step, data, floor⟩ := nextLine_of_no_lineFeed chunk broken
    have nothing : linesFrom tail.floor [] = [] := linesFrom_of_no_lineFeed tail.floor (by simp)
    rw [step, data, nothing, linesFrom_of_no_lineFeed tail.floor broken]
    refine ⟨?_, floor, ?_⟩
    · split <;> rfl
    · split <;> rfl

theorem answers_eq (chunk calls : Nat) (tail : Tail) :
    tail.answers chunk calls =
      (List.range calls).map fun call => (linesFrom tail.floor tail.data).reverse[call]? := by
  induction calls generalizing tail with
  | zero => rfl
  | succ calls ih =>
    obtain ⟨answer, floor, later⟩ := nextLine_eq chunk tail
    rw [answers, ih, answer, floor, later, ← List.tail_reverse, List.getLast?_eq_head?_reverse,
      List.head?_eq_getElem?, List.range_succ_eq_map, List.map_cons, List.map_map]
    simp only [List.getElem?_tail]
    rfl

end Tail

namespace BackwardReader

/-- The reader, going on in chunks of a size. -/
def inChunks (reader : BackwardReader) (size : Nat) : BackwardReader :=
  { reader with chunkSize := size }

/-- The two ways to ask for the next row: with its offset, or as an item of the iteration, which an
error ends. -/
inductive Request
  | record
  | item

inductive Answer
  | record (outcome : Except Error (Option (Nat × Row)))
  | item (outcome : Option (Except Error Row))
deriving DecidableEq

def Request.ask : Request → BackwardReader → Answer × BackwardReader
  | .record, reader => (.record reader.nextRecord.1, reader.nextRecord.2)
  | .item, reader => (.item reader.next.1, reader.next.2)

/-- The answers to some requests. -/
def answers : List Request → BackwardReader → List Answer
  | [], _ => []
  | request :: requests, reader =>
    (request.ask reader).1 :: answers requests (request.ask reader).2

variable {reader twin : BackwardReader}

theorem Twin.ask (same : reader.Twin twin) (request : Request) :
    (request.ask reader).1 = (request.ask twin).1 ∧
      (request.ask reader).2.Twin (request.ask twin).2 := by
  cases request with
  | record =>
    rcases step : reader.nextRecord with ⟨answer, rest⟩
    obtain ⟨left, there, later⟩ := same.nextRecord step
    rw [Request.ask, Request.ask, step, there]
    exact ⟨rfl, later⟩
  | item =>
    rcases step : reader.next with ⟨answer, rest⟩
    obtain ⟨left, there, later⟩ := same.next step
    rw [Request.ask, Request.ask, step, there]
    exact ⟨rfl, later⟩

/-- Readers over the same bytes answer the same requests alike. -/
theorem Twin.answers (same : reader.Twin twin) (requests : List Request) :
    reader.answers requests = twin.answers requests := by
  induction requests generalizing reader twin with
  | nil => rfl
  | cons request requests ih =>
    obtain ⟨answer, later⟩ := same.ask request
    rw [BackwardReader.answers, BackwardReader.answers, answer, ih later]

theorem Twin.scanBatch (same : reader.Twin twin) (columns : BatchColumns) (endSymbol : String)
    (batch : Option Batch) (start : Option Nat) :
    reader.scanBatch columns endSymbol batch start =
      twin.scanBatch columns endSymbol batch start := by
  induction left : reader.tail.remaining using Nat.strongRecOn generalizing reader twin batch start
    with
  | ind count ih =>
    rcases step : reader.nextRecord with ⟨answer, rest⟩
    obtain ⟨behind, there, later⟩ := same.nextRecord step
    rcases answer with error | _ | ⟨offset, row⟩
    · rw [scanBatch_of_error (by rw [step]), scanBatch_of_error (by rw [there])]
    · rw [scanBatch_of_end (by rw [step]), scanBatch_of_end (by rw [there])]
    · -- the scan goes on in what the two have left, which is shorter
      have fewer : rest.tail.remaining < count := by
        have less := remaining_nextRecord reader
        rw [step, left] at less
        exact less (by simp)
      rw [scanBatch_of_row step, scanBatch_of_row there]
      simp only [ih _ fewer later _ _ rfl]

theorem inChunks_twin (reader : BackwardReader) (size : Nat) :
    (reader.inChunks size).Twin reader :=
  ⟨⟨rfl, rfl⟩, rfl, rfl, rfl, rfl⟩

theorem Twin.readRow (same : reader.Twin twin) : reader.readRow.1 = twin.readRow.1 := by
  rcases step : reader.nextRecord with ⟨answer, rest⟩
  obtain ⟨left, there, _⟩ := same.nextRecord step
  rw [BackwardReader.readRow, BackwardReader.readRow, step, there]

end BackwardReader

namespace BackwardOptions

/-- The options, with chunks of another size. -/
def inChunks (options : BackwardOptions) (size : Nat) : BackwardOptions :=
  { options with chunkSize := size }

theorem openContent_inChunks (options : BackwardOptions) (size : Nat) (delimiter : Option UInt8)
    (content : Bytes) :
    (options.inChunks size).openContent delimiter content =
      (options.openContent delimiter content).map (·.inChunks size) := by
  have headless : (options.inChunks size).noHeaders = options.noHeaders := rfl
  have quote : (options.inChunks size).quote = options.quote := rfl
  have header : (options.inChunks size).readHeader = options.readHeader := rfl
  simp only [openContent, headless, quote, header]
  split
  · rfl
  · split
    · rfl
    · cases options.readHeader _ (dropMark content) <;> rfl

theorem openPath_inChunks (options : BackwardOptions) (size : Nat) (path : String)
    (work : Workspace) :
    (options.inChunks size).openPath path work =
      (options.openPath path work).map (·.inChunks size) := by
  unfold openPath
  cases (work.readUnpacked path).mapError Error.io with
  | error error => rfl
  | ok content => exact options.openContent_inChunks size _ content

theorem openFilled_inChunks (options : BackwardOptions) (size : Nat) (path : String)
    (work : Workspace) :
    (options.inChunks size).openFilled path work =
      (options.openFilled path work).map (·.map (·.inChunks size)) := by
  rw [openFilled, openFilled, openPath_inChunks]
  rcases options.openPath path work with error | reader
  · cases error <;> rfl
  · rfl

theorem lastCell_inChunks (options : BackwardOptions) (size : Nat) (path : String)
    (key : ColumnKey) (work : Workspace) :
    (options.inChunks size).lastCell path key work = options.lastCell path key work := by
  rw [lastCell, lastCell, openFilled_inChunks]
  rcases options.openFilled path work with error | _ | reader
  · rfl
  · rfl
  · have row := (reader.inChunks_twin size).readRow
    have column : (reader.inChunks size).requiredColumn key = reader.requiredColumn key := rfl
    have headers : (reader.inChunks size).headers = reader.headers := rfl
    simp only [Except.map, Option.map_some, Outcome.ok_bind, row, column, headers]

theorem lastCells_inChunks (options : BackwardOptions) (size : Nat) (path selection : String)
    (work : Workspace) :
    (options.inChunks size).lastCells path selection work =
      options.lastCells path selection work := by
  rw [lastCells, lastCells, openFilled_inChunks]
  rcases options.openFilled path work with error | _ | reader
  · rfl
  · rfl
  · have row := (reader.inChunks_twin size).readRow
    have headers : (reader.inChunks size).headers = reader.headers := rfl
    simp only [Except.map, Option.map_some, Outcome.ok_bind, row, headers]

theorem locateLastBatch_inChunks (options : BackwardOptions) (size : Nat) (path : String)
    (value cursor : ColumnKey) (endSymbol : String) (work : Workspace) :
    (options.inChunks size).locateLastBatch path value cursor endSymbol work =
      options.locateLastBatch path value cursor endSymbol work := by
  rw [locateLastBatch, locateLastBatch, openFilled_inChunks]
  rcases options.openFilled path work with error | _ | reader
  · rfl
  · rfl
  · have column : (reader.inChunks size).requiredColumn = reader.requiredColumn := rfl
    simp only [Except.map, Option.map_some, Outcome.ok_bind, column,
      (reader.inChunks_twin size).scanBatch]

end BackwardOptions

open BackwardReader in
/-- Lines come from the end as they stand in the source, whatever the chunks are. Call after call
they are the pieces between the line feeds, last one first, each with the offset where it starts,
but for an empty piece at the start; behind them there are none. It is the same through a window
that fetches the chunks from the source: no read fails, and no call takes more turns than one for
each byte and one more. So a reader answers as it does with chunks of any other size, and the looks
at the end of a file find the same. -/
theorem lines_of_chunks {chunk : Nat} (filled : 0 < chunk) :
    (∀ (front data : Bytes) (calls : Nat),
      (Tail.ofData front.length data).answers chunk calls =
        (List.range calls).map (fun call => (linesFrom front.length data).reverse[call]?) ∧
      Window.answers? (front ++ data) chunk (data.length + 1) calls
          (.atEnd front.length (front.length + data.length)) =
        some ((Tail.ofData front.length data).answers chunk calls)) ∧
    (∀ (reader : BackwardReader) (requests : List Request),
      (reader.inChunks chunk).answers requests = reader.answers requests) ∧
    ∀ options : BackwardOptions,
      (∀ delimiter content,
        (options.inChunks chunk).openContent delimiter content =
          (options.openContent delimiter content).map (·.inChunks chunk) ∧
        ∀ reader, options.openContent delimiter content = .ok reader →
          ∃ front data, content = front ++ data ∧ reader.tail = .ofData front.length data) ∧
      ∀ path work,
        (options.inChunks chunk).openPath path work =
          (options.openPath path work).map (·.inChunks chunk) ∧
        (∀ key, (options.inChunks chunk).lastCell path key work =
          options.lastCell path key work) ∧
        (∀ selection, (options.inChunks chunk).lastCells path selection work =
          options.lastCells path selection work) ∧
        ∀ value cursor endSymbol,
          (options.inChunks chunk).locateLastBatch path value cursor endSymbol work =
            options.locateLastBatch path value cursor endSymbol work := by
  refine ⟨fun front data calls => ⟨?_, ?_⟩,
    fun reader requests => (reader.inChunks_twin chunk).answers requests,
    fun options => ⟨fun delimiter content =>
      ⟨options.openContent_inChunks chunk delimiter content,
        fun reader => BackwardOptions.exists_tail_of_openContent⟩,
      fun path work => ⟨options.openPath_inChunks chunk path work,
        fun key => options.lastCell_inChunks chunk path key work,
        fun selection => options.lastCells_inChunks chunk path selection work,
        fun value cursor endSymbol =>
          options.locateLastBatch_inChunks chunk path value cursor endSymbol work⟩⟩⟩
  · rw [Tail.answers_eq, Tail.data_ofData]
    rfl
  · have left : (Tail.ofData front.length data).LeftOf (front ++ data) := by
      simp [Tail.LeftOf, Tail.ofData]
    have enough : (Tail.ofData front.length data).unread.length < data.length + 1 := by
      simp [Tail.ofData]
    have through := Tail.answers?_window left filled enough calls
    rwa [Tail.window, Tail.ofData, List.length_reverse] at through

/-- A line feed in front, a quote that is never closed and a byte that is not text. -/
def brokenLines : Bytes := [0x0A, 0x22, 0x61, 0x0A, 0xFF]

theorem lines_of_chunks_sample :
    0 < 3 ∧ linesFrom 2 brokenLines = [(3, [0x22, 0x61]), (6, [0xFF])] ∧
      Window.answers? ([0x68, 0x0A] ++ brokenLines) 3 6 4 (.atEnd 2 7) =
        some [some (6, [0xFF]), some (3, [0x22, 0x61]), none, none] ∧
      ((BackwardOptions.inChunks {} 3).openContent none ([0x68, 0x0A] ++ brokenLines)).map
          (·.answers [.record, .record, .item]) =
        .ok [.record (.error (.decode "UTF-8")), .record (.ok (some (3, ["a"]))), .item none] := by
  have positive : 0 < 3 := by decide
  obtain ⟨lines, readers, opening⟩ := lines_of_chunks positive
  obtain ⟨answers, through⟩ := lines [0x68, 0x0A] brokenLines 4
  have pieces : linesFrom 2 brokenLines = [(3, [0x22, 0x61]), (6, [0xFF])] := by decide
  have whole : (BackwardOptions.openContent {} none ([0x68, 0x0A] ++ brokenLines)).map
      (·.answers [.record, .record, .item]) =
        .ok [.record (.error (.decode "UTF-8")), .record (.ok (some (3, ["a"]))), .item none] := by
    decide +kernel
  refine ⟨positive, pieces, through.trans ?_, ?_⟩
  · rw [answers]
    decide
  · obtain ⟨reader, opened, same⟩ := Outcome.map_eq_ok_iff.mp whole
    rw [((opening {}).1 none _).1, opened, ← same]
    exact congrArg Except.ok (readers reader _)

end ResumableCsv
