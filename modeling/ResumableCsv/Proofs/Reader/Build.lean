import ResumableCsv.Proofs.Reader.Rows
import ResumableCsv.Proofs.Selection.Bounds

/-!
Building readers: whatever is read ahead, a source of even rows is read as those rows behind its
header row, and the rows of any reader that could be built have the length of its header row.
-/

namespace ResumableCsv

namespace Reader

theorem Plain.settle_eq {reader : Reader} {rows : List Row} (plain : reader.Plain rows) :
    ∃ settled, reader.settle = .ok settled ∧ settled.rows = (reader.buffer ++ rows).map .ok ∧
      settled.peek.1 = .ok (reader.buffer ++ rows).head? ∧ settled.shape = reader.shape := by
  cases buffered : reader.buffer with
  | cons row more =>
    refine ⟨reader, by simp [settle, buffered], ?_, by simp [peek, plain.ready, buffered], rfl⟩
    rw [plain.rows_eq, buffered]
  | nil =>
    have kept := shape_nextExpanded reader
    cases rows with
    | nil =>
      obtain ⟨rest, step, _⟩ := plain.nextExpanded_nil
      rw [step] at kept
      refine ⟨{ rest with phase := .empty }, by simp [settle, buffered, step], ?_,
        by simp [peek], kept⟩
      exact rows_of_next_none (by simp [next, readRow])
    | cons row rows =>
      obtain ⟨rest, step, later⟩ := plain.nextExpanded_cons
      rw [step] at kept
      have held : Plain { rest with buffer := [row] } rows :=
        ⟨later.ready, later.unsplit, later.kept, later.single, later.coming, later.even⟩
      refine ⟨{ rest with buffer := [row] }, by simp [settle, buffered, step], ?_,
        by simp [peek, later.ready], kept⟩
      rw [held.rows_eq]
      rfl

/-- Splits the rows of a reader when that is asked for. -/
def multiplexed (multiplex : Option Multiplex) (reader : Reader) : Except Error Reader :=
  match multiplex with
  | some multiplex => reader.configureMultiplex multiplex
  | none => .ok reader

/-- Fills the buffer of a reader when there is a budget for it. -/
def prebuffered (budget : Option Nat) (reader : Reader) : Except Error Reader :=
  match budget with
  | some budget => reader.fillBuffer budget 0 []
  | none => .ok reader

theorem build_of_first {options : ReaderOptions} {source rest : Source} {first : Row}
    (step : source.next = (.ok (some first), rest)) (delimiter : UInt8) :
    build options source delimiter =
      (multiplexed options.multiplex (ofFirstRow options first rest delimiter) >>=
        prebuffered options.prebuffer) >>= settle := by
  rw [build, step]
  cases options.multiplex with
  | none => cases options.prebuffer <;> rfl
  | some multiplex =>
    cases split : (ofFirstRow options first rest delimiter).configureMultiplex multiplex with
    | error error => simp only [multiplexed, split]; rfl
    | ok reader => cases options.prebuffer <;> simp only [multiplexed, split] <;> rfl

theorem shape_ofFirstRow (options : ReaderOptions) (first : Row) (source : Source)
    (delimiter : UInt8) :
    (ofFirstRow options first source delimiter).shape =
      ⟨if options.noHeaders then none else some (.ofNames first), first.length, delimiter, none,
        options.nuls⟩ := by
  cases headed : options.noHeaders <;> simp [ofFirstRow, headed, Reader.shape]

/-- A reader on a source of even rows hands out just those rows, behind the header row if there is
one. -/
theorem build_of_feeds {options : ReaderOptions} (unsplit : options.multiplex = none)
    (kept : options.nuls = .keep) {source rest : Source} {first : Row} {rows : List Row}
    (step : source.next = (.ok (some first), rest)) (feeds : rest.Feeds rows)
    (even : ∀ row ∈ rows, row.length = first.length) (delimiter : UInt8) :
    let due := if options.noHeaders then first :: rows else rows
    ∃ reader, build options source delimiter = .ok reader ∧ reader.rows = due.map .ok ∧
      reader.peek.1 = .ok due.head? ∧
      reader.headers = (if options.noHeaders then none else some (.ofNames first)) ∧
      reader.rowLength = first.length ∧ reader.delimiter = delimiter := by
  intro due
  have plain : (ofFirstRow options first rest delimiter).Plain due := by
    cases headed : options.noHeaders with
    | true =>
      simp only [ofFirstRow, headed, due, if_true]
      exact ⟨rfl, rfl, kept, rfl, ⟨rows, feeds, rfl⟩, by simpa using even⟩
    | false =>
      simp only [ofFirstRow, headed, due, Bool.false_eq_true, if_false]
      exact ⟨rfl, rfl, kept, rfl, ⟨rows, feeds, rfl⟩, even⟩
  have unbuffered : (ofFirstRow options first rest delimiter).buffer = [] := by
    unfold ofFirstRow
    split <;> rfl
  have shape := shape_ofFirstRow options first rest delimiter
  obtain ⟨filled, later, ahead, filledPlain, same, filledShape⟩ :
      ∃ filled later, prebuffered options.prebuffer (ofFirstRow options first rest delimiter) =
          .ok filled ∧
        filled.Plain later ∧ filled.buffer ++ later = due ∧
        filled.shape = (ofFirstRow options first rest delimiter).shape := by
    cases options.prebuffer with
    | some budget => simpa [prebuffered] using plain.fillBuffer_eq budget 0 []
    | none => exact ⟨_, due, rfl, plain, by rw [unbuffered]; rfl, rfl⟩
  obtain ⟨settled, built, handed, peeked, settledShape⟩ := filledPlain.settle_eq
  rw [same] at handed peeked
  have whole := settledShape.trans (filledShape.trans shape)
  refine ⟨settled, ?_, handed, peeked, congrArg Shape.headers whole,
    congrArg Shape.rowLength whole, congrArg Shape.delimiter whole⟩
  rw [build_of_first step, unsplit]
  change prebuffered options.prebuffer (ofFirstRow options first rest delimiter) >>= settle = _
  rw [ahead]
  exact built

/-- The rows a reader holds, and its header row, have the length it announces. -/
structure Even (reader : Reader) : Prop where
  headed : ∀ headers ∈ reader.headers,
    headers.length = reader.rowLength ∧ headers = .ofNames headers.fieldnames
  buffered : ∀ row ∈ reader.buffer, row.length = reader.rowLength
  divided : ∀ row ∈ reader.expanded, row.length = reader.rowLength

theorem length_of_apply {policy : NulPolicy} {row kept : Row}
    (passed : policy.apply row = .ok kept) : kept.length = row.length := by
  unfold NulPolicy.apply at passed
  split at passed
  · cases passed
    rfl
  · cases passed
    simp
  · split at passed
    · cases passed
    · cases passed
      rfl

theorem length_of_nextSourceRow {reader : Reader} {row : Row}
    (found : reader.nextSourceRow.1 = .ok (some row)) : row.length = reader.rowLength := by
  have shape := shape_takeRaw reader
  unfold nextSourceRow at found
  split at found
  next raw rest step =>
    rw [step] at shape
    obtain ⟨kept, checked, same⟩ := Outcome.map_eq_ok_iff.mp found
    cases same
    unfold check at checked
    split at checked
    next fits =>
      rw [length_of_apply checked, fits]
      exact congrArg Shape.rowLength shape
    next => cases checked
  next => cases found
  next => cases found

theorem length_of_mem_splitRow {reader : Reader} {row piece : Row}
    (member : piece ∈ reader.splitRow row) : piece.length = row.length := by
  unfold splitRow at member
  split at member
  · rw [List.mem_singleton.mp member]
  · obtain ⟨text, _, rfl⟩ := List.mem_map.mp member
    exact List.length_set

theorem Even.of_shape {reader other : Reader} (even : reader.Even)
    (shape : other.shape = reader.shape)
    (buffered : ∀ row ∈ other.buffer, row.length = reader.rowLength)
    (divided : ∀ row ∈ other.expanded, row.length = reader.rowLength) : other.Even := by
  have headers : other.headers = reader.headers := congrArg Shape.headers shape
  have rowLength : other.rowLength = reader.rowLength := congrArg Shape.rowLength shape
  refine ⟨?_, ?_, ?_⟩
  · rw [headers, rowLength]
    exact even.headed
  · rw [rowLength]
    exact buffered
  · rw [rowLength]
    exact divided

theorem Even.nextExpanded {reader : Reader} (even : reader.Even) :
    reader.nextExpanded.2.Even ∧
      ∀ row, reader.nextExpanded.1 = .ok (some row) → row.length = reader.rowLength := by
  have kept := kept_nextExpanded reader
  have shape := shape_nextExpanded reader
  have first := kept_nextSourceRow reader
  have same := shape_nextSourceRow reader
  have length := @length_of_nextSourceRow reader
  have buffered : ∀ row ∈ reader.nextExpanded.2.buffer, row.length = reader.rowLength := by
    rw [kept.2]
    exact even.buffered
  suffices divided : (∀ row ∈ reader.nextExpanded.2.expanded, row.length = reader.rowLength) ∧
      ∀ row, reader.nextExpanded.1 = .ok (some row) → row.length = reader.rowLength from
    ⟨even.of_shape shape buffered divided.1, divided.2⟩
  unfold Reader.nextExpanded
  split
  next row rows held =>
    have all := even.divided
    rw [held] at all
    refine ⟨fun other member => all other (by simp [member]), ?_⟩
    intro other found
    cases found
    exact all row (by simp)
  next empty =>
    split
    next row rest step =>
      have pieces : ∀ piece ∈ rest.splitRow row, piece.length = reader.rowLength := by
        intro piece member
        rw [step] at length
        exact (length_of_mem_splitRow member).trans (length rfl)
      refine ⟨fun other member => pieces other (List.mem_of_mem_tail member), ?_⟩
      intro other found
      exact pieces other (List.mem_of_mem_head? (Except.ok.inj found))
    next rest step =>
      rw [step] at first
      refine ⟨fun other member => ?_, fun other found => by cases found⟩
      rw [first.2.2, empty] at member
      cases member
    next error rest step =>
      rw [step] at first
      refine ⟨fun other member => ?_, fun other found => by cases found⟩
      rw [first.2.2, empty] at member
      cases member

theorem Even.readRow {reader : Reader} (even : reader.Even) :
    reader.readRow.2.Even ∧
      ∀ row, reader.readRow.1 = .ok (some row) → row.length = reader.rowLength := by
  obtain ⟨later, length⟩ := even.nextExpanded
  unfold Reader.readRow
  split
  next row rows ready held =>
    have all := even.buffered
    rw [held] at all
    refine ⟨⟨even.headed, fun other member => all other (by simp [member]), even.divided⟩, ?_⟩
    intro other found
    cases found
    exact all row (by simp)
  next =>
    split
    next row rest step =>
      rw [step] at later length
      exact ⟨later, fun other found => length other (by cases found; rfl)⟩
    next rest step =>
      rw [step] at later
      exact ⟨⟨later.headed, later.buffered, later.divided⟩, fun other found => by cases found⟩
    next error rest step =>
      rw [step] at later
      exact ⟨⟨later.headed, later.buffered, later.divided⟩, fun other found => by cases found⟩
  next => exact ⟨even, fun other found => by cases found⟩

theorem Even.peek {reader : Reader} (even : reader.Even) :
    reader.peek.2.Even ∧ ∀ row, reader.peek.1 = .ok (some row) → row.length = reader.rowLength := by
  obtain ⟨later, length⟩ := even.nextExpanded
  have shape := shape_nextExpanded reader
  unfold Reader.peek
  split
  next row rows ready held =>
    refine ⟨even, fun other found => ?_⟩
    cases found
    exact even.buffered row (by simp [held])
  next =>
    split
    next row rest step =>
      rw [step] at later length shape
      have same : rest.rowLength = reader.rowLength := congrArg Shape.rowLength shape
      refine ⟨⟨later.headed, ?_, later.divided⟩, fun other found => length other (by cases found; rfl)⟩
      intro other member
      rw [List.mem_singleton.mp member]
      exact (length row rfl).trans same.symm
    next rest step =>
      rw [step] at later
      exact ⟨later, fun other found => by cases found⟩
    next error rest step =>
      rw [step] at later
      exact ⟨later, fun other found => by cases found⟩
  next => exact ⟨even, fun other found => by cases found⟩

theorem Even.next {reader : Reader} (even : reader.Even) :
    reader.next.2.Even ∧ ∀ row, reader.next.1 = some (.ok row) → row.length = reader.rowLength := by
  obtain ⟨later, length⟩ := even.readRow
  unfold Reader.next
  split
  next row rest step =>
    rw [step] at later length
    exact ⟨later, fun other found => length other (by cases found; rfl)⟩
  next rest step =>
    rw [step] at later
    exact ⟨later, fun other found => by cases found⟩
  next error rest step =>
    rw [step] at later
    exact ⟨later, fun other found => by cases found⟩

theorem Even.rows {reader : Reader} (even : reader.Even) :
    ∀ row, .ok row ∈ reader.rows → row.length = reader.rowLength := by
  generalize same : reader.rows = items
  induction items generalizing reader with
  | nil => simp
  | cons item items ih =>
    obtain ⟨rest, step, later⟩ := next_of_rows_cons same
    have kept := shape_next reader
    obtain ⟨evenRest, length⟩ := even.next
    rw [step] at kept evenRest length
    intro row member
    rcases List.mem_cons.mp member with first | member
    · exact length row (by rw [← first])
    · exact (ih evenRest later row member).trans (congrArg Shape.rowLength kept)

theorem Even.fillBuffer {budget used : Nat} {held : List Row} {reader filled : Reader}
    (even : reader.Even) (rows : ∀ row ∈ held, row.length = reader.rowLength)
    (built : reader.fillBuffer budget used held = .ok filled) : filled.Even := by
  fun_induction Reader.fillBuffer budget used held reader with
  | case1 => cases built
  | case2 used held reader rest step =>
    have shape := shape_nextExpanded reader
    obtain ⟨later, _⟩ := even.nextExpanded
    rw [step] at later shape
    cases built
    exact even.of_shape shape (by simpa using rows)
      (fun row member => (later.divided row member).trans (congrArg Shape.rowLength shape))
  | case3 used held reader row rest step spent =>
    have shape := shape_nextExpanded reader
    obtain ⟨later, length⟩ := even.nextExpanded
    rw [step] at later shape length
    cases built
    refine even.of_shape shape ?_
      (fun row member => (later.divided row member).trans (congrArg Shape.rowLength shape))
    intro other member
    rcases List.mem_cons.mp (List.mem_reverse.mp member) with rfl | member
    · exact length other rfl
    · exact rows other member
  | case4 used held reader row rest step spent ih =>
    have shape := shape_nextExpanded reader
    obtain ⟨later, length⟩ := even.nextExpanded
    rw [step] at later shape length
    have same : rest.rowLength = reader.rowLength := congrArg Shape.rowLength shape
    refine ih later ?_ built
    intro other member
    rw [same]
    rcases List.mem_cons.mp member with rfl | member
    · exact length other rfl
    · exact rows other member

theorem Even.settle {reader settled : Reader} (even : reader.Even)
    (built : reader.settle = .ok settled) : settled.Even := by
  have shape := shape_nextExpanded reader
  obtain ⟨later, length⟩ := even.nextExpanded
  unfold Reader.settle at built
  split at built
  · cases built
    exact even
  · split at built
    next => cases built
    next rest step =>
      rw [step] at later
      cases built
      exact ⟨later.headed, later.buffered, later.divided⟩
    next row rest step =>
      rw [step] at later shape length
      have same : rest.rowLength = reader.rowLength := congrArg Shape.rowLength shape
      cases built
      refine ⟨later.headed, ?_, later.divided⟩
      intro other member
      rw [List.mem_singleton.mp member]
      exact (length row rfl).trans same.symm

theorem shape_settle {reader settled : Reader} (built : reader.settle = .ok settled) :
    settled.shape = reader.shape := by
  have kept := shape_nextExpanded reader
  unfold Reader.settle at built
  split at built
  · cases built
    rfl
  · split at built
    next => cases built
    next rest step =>
      rw [step] at kept
      cases built
      exact kept
    next row rest step =>
      rw [step] at kept
      cases built
      exact kept

/-- A column that is found lies within the rows. -/
theorem Even.columnIndex_lt {reader : Reader} (even : reader.Even) {key : ColumnKey} {index : Nat}
    (found : reader.columnIndex key = .ok index) : index < reader.rowLength := by
  unfold columnIndex at found
  split at found
  next headers headed =>
    obtain ⟨length, named⟩ := even.headed headers headed
    rw [named] at found
    exact lt_of_lt_of_eq (Headers.resolve_lt found) length
  next place headed =>
    split at found
    next inside =>
      cases found
      exact inside
    next => cases found
  next => cases found

theorem requiredColumn_eq_ok_iff {reader : Reader} {key : ColumnKey} {index : Nat} :
    reader.requiredColumn key = .ok index ↔ reader.columnIndex key = .ok index :=
  Outcome.mapError_eq_ok_iff

/-- Splitting is set up just when the column is found, the separator is not empty and the rename, if
there is one, has a header row to change. -/
theorem configureMultiplex_eq_ok_iff {multiplex : Multiplex} {reader configured : Reader} :
    reader.configureMultiplex multiplex = .ok configured ↔
      ∃ index headers, reader.columnIndex multiplex.column = .ok index ∧
        multiplex.separator ≠ "" ∧
        renameSplit reader.headers index multiplex.newColumn = .ok headers ∧
        configured =
          { reader with headers := headers, split := some (index, multiplex.separator) } := by
  simp only [configureMultiplex, Outcome.do_eq_ok_iff, requiredColumn_eq_ok_iff]
  constructor
  · rintro ⟨index, found, built⟩
    split at built
    next => cases built
    next separated =>
      obtain ⟨headers, renamed, same⟩ := Outcome.do_eq_ok_iff.mp built
      cases same
      exact ⟨index, headers, found, separated, renamed, rfl⟩
  · rintro ⟨index, headers, found, separated, renamed, rfl⟩
    refine ⟨index, found, ?_⟩
    rw [if_neg separated, Outcome.do_eq_ok_iff]
    exact ⟨headers, renamed, rfl⟩

theorem Even.configureMultiplex {multiplex : Multiplex} {reader configured : Reader}
    (even : reader.Even) (built : reader.configureMultiplex multiplex = .ok configured) :
    configured.Even := by
  obtain ⟨index, headers, _, _, renamed, rfl⟩ := configureMultiplex_eq_ok_iff.mp built
  refine ⟨?_, even.buffered, even.divided⟩
  intro found member
  unfold renameSplit at renamed
  split at renamed
  next =>
    cases renamed
    exact even.headed found member
  next => cases renamed
  next new old _ held =>
    obtain ⟨name, _, named⟩ := Outcome.do_eq_ok_iff.mp renamed
    cases named
    cases member
    refine ⟨?_, rfl⟩
    rw [← (even.headed old held).1]
    simp [Headers.rename, Headers.ofNames, Headers.length]

theorem shape_fillBuffer {budget used : Nat} {held : List Row} {reader filled : Reader}
    (built : reader.fillBuffer budget used held = .ok filled) : filled.shape = reader.shape := by
  fun_induction Reader.fillBuffer budget used held reader with
  | case1 => cases built
  | case2 used held reader rest step =>
    have kept := shape_nextExpanded reader
    rw [step] at kept
    cases built
    exact kept
  | case3 used held reader row rest step spent =>
    have kept := shape_nextExpanded reader
    rw [step] at kept
    cases built
    exact kept
  | case4 used held reader row rest step spent ih =>
    have kept := shape_nextExpanded reader
    rw [step] at kept
    exact (ih built).trans kept

/-- Filling the buffer and settling leave what is known of the rows as it is. -/
theorem shape_finish {budget : Option Nat} {reader settled : Reader}
    (built : (Reader.prebuffered budget reader >>= settle) = .ok settled) :
    settled.shape = reader.shape := by
  obtain ⟨filled, ahead, last⟩ := Outcome.do_eq_ok_iff.mp built
  refine (shape_settle last).trans ?_
  cases budget with
  | none =>
    cases ahead
    rfl
  | some budget => exact shape_fillBuffer ahead

theorem Even.multiplexed {multiplex : Option Multiplex} {reader configured : Reader}
    (even : reader.Even) (divided : Reader.multiplexed multiplex reader = .ok configured) :
    configured.Even := by
  cases multiplex with
  | none =>
    cases divided
    exact even
  | some multiplex => exact even.configureMultiplex divided

theorem Even.prebuffered {budget : Option Nat} {reader filled : Reader} (even : reader.Even)
    (ahead : Reader.prebuffered budget reader = .ok filled) : filled.Even := by
  cases budget with
  | none =>
    cases ahead
    exact even
  | some budget => exact even.fillBuffer (by simp) ahead

theorem even_ofFirstRow (options : ReaderOptions) (first : Row) (source : Source)
    (delimiter : UInt8) : (ofFirstRow options first source delimiter).Even := by
  cases headed : options.noHeaders <;>
    exact ⟨by simp [ofFirstRow, headed, Headers.ofNames, Headers.length],
      by simp [ofFirstRow, headed], by simp [ofFirstRow, headed]⟩

/-- Every row of a reader that could be built has the length of the reader, and so has its header
row. -/
theorem even_of_build {options : ReaderOptions} {source : Source} {delimiter : UInt8}
    {reader : Reader} (built : build options source delimiter = .ok reader) : reader.Even := by
  rcases step : source.next with ⟨error | _ | first, rest⟩
  · rw [build, step] at built
    cases built
  · rw [build, step] at built
    cases built
  · have start := even_ofFirstRow options first rest delimiter
    rw [build_of_first step] at built
    obtain ⟨filled, ready, settled⟩ := Outcome.do_eq_ok_iff.mp built
    obtain ⟨configured, divided, ahead⟩ := Outcome.do_eq_ok_iff.mp ready
    exact ((start.multiplexed divided).prebuffered ahead).settle settled

end Reader

theorem parsedText_of_unstripped {nuls : NulPolicy} (unstripped : nuls ≠ .strip) :
    parsedText nuls = parsedText .keep := by
  funext blocks
  simp [parsedText, unstripped]

/-- What a reader can be opened on. -/
inductive Origin
  | path (path : String) (work : Workspace)
  | bytes (content : Bytes)
  | rows (rows : List Row)

namespace ReaderOptions

def openOn (options : ReaderOptions) : Origin → Except Error Reader
  | .path path work => options.openPath path work
  | .bytes content => options.openBytes content
  | .rows rows => options.openRows rows

/-- The text of some blocks as a source. -/
def textOf (options : ReaderOptions) (blocks : List Bytes) (fault : Option IoFault)
    (delimiter : UInt8) : Source :=
  .text ⟨delimiter, options.quote⟩ options.encoding ⟨parsedText options.nuls blocks, fault⟩

/-- What a reader is built on, and its delimiter. -/
def sourceOn (options : ReaderOptions) : Origin → Except Error (Source × UInt8)
  | .path path work => do
    let input ← (work.openInput path).mapError .io
    let blocks ← input.blocks
    let delimiter := options.guessDelimiter path blocks
    pure (options.textOf blocks input.fault delimiter, delimiter)
  | .bytes content => do
    let blocks ← Input.blocks ⟨content, none⟩
    let delimiter := options.delimiter.getD Path.comma
    pure (options.textOf blocks none delimiter, delimiter)
  | .rows rows => pure (.listed rows, options.delimiter.getD Path.comma)

theorem openOn_eq (options : ReaderOptions) (origin : Origin) :
    options.openOn origin =
      options.sourceOn origin >>= fun opened => Reader.build options opened.1 opened.2 := by
  cases origin with
  | path path work =>
    simp only [openOn, openPath, sourceOn]
    cases (work.openInput path).mapError Error.io with
    | error error => rfl
    | ok input =>
      simp only [Outcome.ok_bind]
      cases input.blocks <;> rfl
  | bytes content =>
    simp only [openOn, openBytes, sourceOn]
    cases Input.blocks ⟨content, none⟩ <;> rfl
  | rows rows => rfl

theorem openOn_eq_ok_iff {options : ReaderOptions} {origin : Origin} {reader : Reader} :
    options.openOn origin = .ok reader ↔
      ∃ source delimiter, options.sourceOn origin = .ok (source, delimiter) ∧
        Reader.build options source delimiter = .ok reader := by
  simp [openOn_eq, Outcome.do_eq_ok_iff]

/-- Opening fails before there is a source to read, or it builds a reader on one; how much is to be
read ahead has no say in either. -/
theorem openOn_cases (options : ReaderOptions) (origin : Origin) :
    (∃ error, ∀ ahead, { options with prebuffer := ahead }.openOn origin = .error error) ∨
      ∃ source delimiter, ∀ ahead, { options with prebuffer := ahead }.openOn origin =
        Reader.build { options with prebuffer := ahead } source delimiter := by
  have same (ahead : Option Nat) :
      { options with prebuffer := ahead }.sourceOn origin = options.sourceOn origin := by
    cases origin <;> rfl
  simp only [openOn_eq, same]
  cases options.sourceOn origin with
  | error error => exact .inl ⟨error, fun _ => rfl⟩
  | ok opened => exact .inr ⟨opened.1, opened.2, fun _ => rfl⟩

end ReaderOptions

end ResumableCsv
