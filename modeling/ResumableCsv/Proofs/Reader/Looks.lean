import ResumableCsv.Proofs.Reader.Items

/-!
Looking at the next row between reads. A look that shows a row, or that none is left, changes nothing
for the reads. A look that shows an error takes it off, and reading goes on with what stands behind
it, where a read that met the same error would have been the last.
-/

namespace ResumableCsv.Reader

/-- What a caller may ask of a reader. -/
inductive Look
  | peek
  | read
deriving DecidableEq

def Look.ask : Look → Reader → Except Error (Option Row) × Reader
  | .peek, reader => reader.peek
  | .read, reader => reader.readRow

/-- The calls of a caller, each with what it returned. -/
def trace : List Look → Reader → List (Look × Except Error (Option Row))
  | [], _ => []
  | look :: looks, reader => (look, (look.ask reader).1) :: trace looks (look.ask reader).2

/-- The reader that such calls leave. -/
def after (looks : List Look) (reader : Reader) : Reader :=
  looks.foldl (fun reader look => (look.ask reader).2) reader

variable {reader other : Reader}

theorem trace_append (first later : List Look) (reader : Reader) :
    reader.trace (first ++ later) = reader.trace first ++ (reader.after first).trace later := by
  induction first generalizing reader with
  | nil => rfl
  | cons look first ih => simp only [List.cons_append, trace, after, List.foldl_cons, ih]

/-- What a call returns when these items are to come. -/
def shown : List (Except Error Row) → Except Error (Option Row)
  | [] => .ok none
  | item :: _ => item.map some

/-- The items that are still to come after a call. -/
def Look.left : Look → List (Except Error Row) → List (Except Error Row)
  | _, [] => []
  | .peek, item :: others => beyond item others
  | .read, item :: others => behind item others

/-- A call sees nothing of a reader but the items to come. -/
theorem ask_eq (look : Look) (reader : Reader) :
    ∃ rest, look.ask reader = (shown reader.items, rest) ∧ rest.items = look.left reader.items := by
  cases found : reader.items with
  | nil =>
    cases look with
    | peek => exact peek_of_items_nil found
    | read => exact readRow_of_items_nil found
  | cons item others =>
    cases look with
    | peek => exact peek_of_items_cons found
    | read => exact readRow_of_items_cons found

theorem answer_ask (look : Look) (reader : Reader) : (look.ask reader).1 = shown reader.items := by
  obtain ⟨rest, asked, _⟩ := ask_eq look reader
  rw [asked]

theorem items_ask (look : Look) (reader : Reader) :
    (look.ask reader).2.items = look.left reader.items := by
  obtain ⟨rest, asked, left⟩ := ask_eq look reader
  rw [asked, left]

/-- A look shows what a read would hand out. -/
theorem peek_eq_readRow (reader : Reader) : reader.peek.1 = reader.readRow.1 :=
  (answer_ask .peek reader).trans (answer_ask .read reader).symm

theorem left_peek (items : List (Except Error Row)) :
    Look.peek.left items = if (shown items).isOk then items else items.tail := by
  match items with
  | [] | .ok _ :: _ | .error _ :: _ => rfl

theorem left_read {items : List (Except Error Row)} (last : ∀ row, shown items ≠ .ok (some row)) :
    Look.read.left items = [] := by
  match items with
  | [] | .error _ :: _ => rfl
  | .ok row :: _ => exact absurd rfl (last row)

/-- Calls cannot tell readers apart that have the same items to come. -/
theorem trace_congr (looks : List Look) (same : reader.items = other.items) :
    reader.trace looks = other.trace looks := by
  induction looks generalizing reader other with
  | nil => rfl
  | cons look looks ih =>
    have later : (look.ask reader).2.items = (look.ask other).2.items := by
      rw [items_ask, items_ask, same]
    rw [trace, trace, answer_ask, answer_ask, same, ih later]

theorem trace_of_items_nil (looks : List Look) (spent : reader.items = []) :
    ∀ entry ∈ reader.trace looks, entry.2 = .ok none := by
  induction looks generalizing reader with
  | nil => simp [trace]
  | cons look looks ih =>
    have later : (look.ask reader).2.items = [] := by
      rw [items_ask, spent, Look.left]
    rw [trace, answer_ask, spent]
    exact List.forall_mem_cons.mpr ⟨rfl, ih later⟩

/-- A look that shows no error takes nothing away. -/
theorem items_peek_of_ok {answer : Option Row} (found : reader.peek.1 = .ok answer) :
    reader.peek.2.items = reader.items := by
  have answered : shown reader.items = .ok answer := (answer_ask .peek reader).symm.trans found
  have left : reader.peek.2.items = Look.peek.left reader.items := items_ask .peek reader
  rw [left, left_peek, answered]
  rfl

/-- Looks that show no error can be left out. -/
theorem reads_of_trace (looks : List Look)
    (sound : ∀ error, (Look.peek, .error error) ∉ reader.trace looks) :
    (reader.trace looks).filter (·.1 = .read) = reader.trace (looks.filter (· = .read)) := by
  induction looks generalizing reader with
  | nil => rfl
  | cons look looks ih =>
    have later : ∀ error, (Look.peek, .error error) ∉ (look.ask reader).2.trace looks :=
      fun error member => sound error (List.mem_cons_of_mem _ member)
    cases look with
    | read => simpa [trace] using ih later
    | peek =>
      obtain ⟨answer, shown⟩ : ∃ answer, reader.peek.1 = .ok answer := by
        cases shown : reader.peek.1 with
        | ok answer => exact ⟨answer, rfl⟩
        | error error =>
          have first : (Look.peek, .error error) ∈ reader.trace (.peek :: looks) := by
            simp [trace, Look.ask, shown]
          exact absurd first (sound error)
      calc (reader.trace (.peek :: looks)).filter (·.1 = .read)
        _ = (reader.peek.2.trace looks).filter (·.1 = .read) := by simp [trace, Look.ask]
        _ = reader.peek.2.trace (looks.filter (· = .read)) := ih later
        _ = reader.trace (looks.filter (· = .read)) := trace_congr _ (items_peek_of_ok shown)

/-- Looks show what a read would hand out and are invisible to the reads, until one shows an error:
that one is taken off, with what stands behind it still to come. Behind a read of the end or of an
error nothing comes. -/
theorem trace_of_looks (reader : Reader) (looks : List Look) :
    ((∀ error, (Look.peek, .error error) ∉ reader.trace looks) →
      (reader.trace looks).filter (·.1 = .read) = reader.trace (looks.filter (· = .read))) ∧
    (∀ first later, looks = first ++ .peek :: later →
      let there := reader.after first
      reader.trace looks =
        reader.trace first ++ (.peek, there.readRow.1) :: there.peek.2.trace later ∧
      there.peek.2.items =
        if there.readRow.1.isOk then there.items else there.items.tail) ∧
    ∀ first later, looks = first ++ .read :: later →
      let there := reader.after first
      (∀ row, there.readRow.1 ≠ .ok (some row)) →
        reader.trace looks =
          reader.trace first ++ (.read, there.readRow.1) :: there.readRow.2.trace later ∧
        ∀ entry ∈ there.readRow.2.trace later, entry.2 = .ok none := by
  refine ⟨reads_of_trace looks, ?_, ?_⟩
  · rintro first later rfl
    refine ⟨?_, ?_⟩
    · rw [trace_append, trace, Look.ask, peek_eq_readRow]
    · have answer : (reader.after first).readRow.1 = shown (reader.after first).items :=
        answer_ask .read _
      have left : (reader.after first).peek.2.items = Look.peek.left (reader.after first).items :=
        items_ask .peek _
      rw [left, left_peek, answer]
  · rintro first later rfl
    intro there last
    have answer : there.readRow.1 = shown there.items := answer_ask .read there
    have nothing : there.readRow.2.items = [] :=
      (items_ask .read there).trans (left_read fun row => answer ▸ last row)
    refine ⟨?_, trace_of_items_nil later nothing⟩
    rw [trace_append, trace, Look.ask]

/-- A reader with two good rows around one that is too short. -/
def raggedReader : Reader :=
  { source := .listed [["3"], ["4", "5"]], headers := some (.ofNames ["a", "b"]), rowLength := 2,
    delimiter := 0x2C, buffer := [["1", "2"]] }

theorem trace_of_looks_sample :
    (∀ error, (Look.peek, .error error) ∉ raggedReader.trace [.peek, .peek, .read, .read]) ∧
      (raggedReader.trace [.peek, .peek, .read, .read]).filter (·.1 = .read) =
        [(.read, .ok (some ["1", "2"])), (.read, .error (.rowLengthMismatch 2 1))] ∧
      (raggedReader.after [.read]).peek.2.items = (raggedReader.after [.read]).items.tail ∧
      ∀ entry ∈ (raggedReader.after [.read]).readRow.2.trace [.peek, .read],
        entry.2 = .ok none := by
  have shown : raggedReader.trace [.peek, .peek, .read, .read] =
      [(.peek, .ok (some ["1", "2"])), (.peek, .ok (some ["1", "2"])),
        (.read, .ok (some ["1", "2"])), (.read, .error (.rowLengthMismatch 2 1))] := rfl
  have sound : ∀ error,
      (Look.peek, .error error) ∉ raggedReader.trace [.peek, .peek, .read, .read] := by
    simp [shown]
  refine ⟨sound, ?_, ?_, ?_⟩
  · exact (trace_of_looks raggedReader [.peek, .peek, .read, .read]).1 sound
  · exact ((trace_of_looks raggedReader [.read, .peek]).2.1 [.read] [] rfl).2
  · exact ((trace_of_looks raggedReader [.read, .read, .peek, .read]).2.2 [.read] [.peek, .read]
      rfl nofun).2

/-- A look at the row of the wrong length hides it from the read that follows. -/
theorem trace_of_looks_ne :
    Reader.build {} (.listed [["a", "b"], ["1", "2"], ["3"], ["4", "5"]]) 0x2C =
        .ok raggedReader ∧
      (raggedReader.trace [.read, .peek, .read]).filter (·.1 = .read) =
        [(.read, .ok (some ["1", "2"])), (.read, .ok (some ["4", "5"]))] ∧
      raggedReader.trace [.read, .read] =
        [(.read, .ok (some ["1", "2"])), (.read, .error (.rowLengthMismatch 2 1))] :=
  ⟨rfl, rfl, rfl⟩

end ResumableCsv.Reader
