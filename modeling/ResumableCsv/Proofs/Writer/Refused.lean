import ResumableCsv.Proofs.Writer.Calls

/-!
What a refused call leaves behind. Nothing is written and nothing is counted; but the first row that
is asked for settles the row length before its NULs are looked at, so a writer without declared
length that refuses its first row for a NUL goes on with the length of that row.
-/

namespace ResumableCsv

namespace Writer

/-- Everything a caller can ask of a writer. -/
inductive Request
  | one (call : Call)
  | many (rows : List Row)
  | flush

namespace Request

/-- The first row that is to be written; a header row needs names. -/
def leading (names : Option (List String)) : Request → Option Row
  | .one .header => names
  | .one call => some (call.cells names)
  | .many rows => rows.head?
  | .flush => none

def run (request : Request) (state : Writer × Workspace) :
    Except Error Unit × Writer × Workspace :=
  match request with
  | .one call => call.run state.1 state.2
  | .many rows => state.1.writeRows rows state.2
  | .flush => (.ok (), state.1.flush state.2)

/-- What is done once the first row is written. -/
def proceed (request : Request) (writer : Writer) (work : Workspace) :
    Except Error Unit × Writer × Workspace :=
  match request with
  | .one .header | .flush => (.ok (), writer, work)
  | .one _ => (.ok (), { writer with rowsWritten := writer.rowsWritten + 1 }, work)
  | .many rows => { writer with rowsWritten := writer.rowsWritten + 1 }.writeRows rows.tail work

end Request

/-- What a caller is told, request by request. -/
def results : List Request → Writer × Workspace → List (Except Error Unit)
  | [], _ => []
  | request :: requests, state => (request.run state).1 :: results requests (request.run state).2

/-- The writer and the files that requests leave. -/
def after (requests : List Request) (state : Writer × Workspace) : Writer × Workspace :=
  requests.foldl (fun state request => (request.run state).2) state

/-- A writer that has settled on a row length. -/
def settle (length : Nat) (state : Writer × Workspace) : Writer × Workspace :=
  ({ state.1 with rowLength := some length }, state.2)

variable {writer : Writer} {work : Workspace} {state : Writer × Workspace} {request : Request}
  {cells : Row} {length : Nat}

/-- The first row that is asked for settles the length, written or not. -/
theorem emit_keeps (cells : Row) (writer : Writer) (work : Workspace) :
    (writer.emit cells work).2.1.fieldnames = writer.fieldnames ∧
      (writer.emit cells work).2.1.rowLength = writer.rowLength.or (some cells.length) := by
  cases settled : writer.rowLength with
  | none =>
    cases passed : writer.nuls.apply cells <;> simp [emit, settled, passed]
  | some length =>
    by_cases fits : cells.length = length
    · cases passed : writer.nuls.apply cells <;> simp [emit, settled, passed, fits]
    · simp [emit, settled, fits]

theorem writeRow_keeps (cells : Row) (writer : Writer) (work : Workspace) :
    (writer.writeRow cells work).2.1.fieldnames = writer.fieldnames ∧
      (writer.writeRow cells work).2.1.rowLength = writer.rowLength.or (some cells.length) := by
  have kept := emit_keeps cells writer work
  unfold writeRow
  split <;> simp_all

theorem writeRows_keeps (rows : List Row) (writer : Writer) (work : Workspace) :
    (writer.writeRows rows work).2.1.fieldnames = writer.fieldnames ∧
      (writer.writeRows rows work).2.1.rowLength =
        writer.rowLength.or (rows.head?.map List.length) := by
  induction rows generalizing writer work with
  | nil => simp [writeRows]
  | cons cells rows ih =>
    obtain ⟨names, settled⟩ := writeRow_keeps cells writer work
    rw [writeRows]
    split
    next next rest step =>
      obtain ⟨later_names, later_settled⟩ := ih next rest
      rw [step] at names settled
      refine ⟨later_names.trans names, later_settled.trans ?_⟩
      rw [settled, Option.or_assoc]
      rfl
    next => exact ⟨names, settled⟩

/-- The row length is that of the first row that was asked for, unless it was settled before. -/
theorem run_keeps (request : Request) (state : Writer × Workspace) :
    (request.run state).2.1.fieldnames = state.1.fieldnames ∧
      (request.run state).2.1.rowLength =
        state.1.rowLength.or ((request.leading state.1.fieldnames).map List.length) := by
  cases request with
  | one call =>
    cases call with
    | header =>
      cases declared : state.1.fieldnames with
      | none => simp [Request.run, Call.run, writeHeader, Request.leading, declared]
      | some names =>
        simp only [Request.run, Call.run, writeHeader, Request.leading, declared]
        obtain ⟨kept, settled⟩ := emit_keeps names state.1 state.2
        exact ⟨kept.trans declared, settled⟩
    | row cells => exact writeRow_keeps cells state.1 state.2
    | concat parts => exact writeRow_keeps parts.flatten state.1 state.2
    | record kind values => exact writeRow_keeps (kind.row values) state.1 state.2
  | many rows => exact writeRows_keeps rows state.1 state.2
  | flush => simp [Request.run, flush, Request.leading]

theorem after_keeps (requests : List Request) (state : Writer × Workspace) :
    (after requests state).1.fieldnames = state.1.fieldnames ∧
      (after requests state).1.rowLength = state.1.rowLength.or
        ((requests.findSome? (Request.leading state.1.fieldnames)).map List.length) := by
  induction requests generalizing state with
  | nil => simp [after]
  | cons request requests ih =>
    obtain ⟨names, settled⟩ := run_keeps request state
    obtain ⟨later_names, later_settled⟩ := ih (request.run state).2
    refine ⟨later_names.trans names, later_settled.trans ?_⟩
    rw [names, settled, List.findSome?_cons]
    cases request.leading state.1.fieldnames <;> simp

/-- A first row of the length that was settled on is written as if no length was settled. -/
theorem emit_settle (unsettled : state.1.rowLength = none) (fits : cells.length = length) :
    (settle length state).1.emit cells (settle length state).2 = state.1.emit cells state.2 := by
  simp [emit, settle, unsettled, fits]

theorem emit_settle_of_ne (other : cells.length ≠ length) :
    (settle length state).1.emit cells (settle length state).2 =
      (.error (.rowLengthMismatch length cells.length), settle length state) := by
  simp [emit, settle, other]

/-- A row is refused for a NUL, or for its length when one was settled before. -/
theorem emit_error {error : Error} {next : Writer} {rest : Workspace}
    (refused : writer.emit cells work = (.error error, next, rest)) :
    rest = work ∧ next = { writer with rowLength := next.rowLength } ∧
      ((∃ column, error = .nulByte column) ∨ ∃ expected, writer.rowLength = some expected ∧
        error = .rowLengthMismatch expected cells.length) := by
  unfold emit at refused
  by_cases fits : cells.length = writer.rowLength.getD cells.length
  · rw [if_neg fun other => other fits] at refused
    cases passed : writer.nuls.apply cells with
    | ok kept =>
      rw [passed] at refused
      cases refused
    | error fault =>
      rw [passed] at refused
      cases refused
      exact ⟨rfl, rfl, .inl (NulPolicy.nulByte_of_apply passed)⟩
  · rw [if_pos fits] at refused
    cases settled : writer.rowLength with
    | none =>
      rw [settled] at fits
      exact absurd rfl fits
    | some expected =>
      rw [settled] at refused
      cases refused
      exact ⟨rfl, rfl, .inr ⟨expected, rfl, rfl⟩⟩

/-- A row length that is reported as expected was settled. -/
theorem emit_mismatch {expected actual : Nat}
    (refused : (writer.emit cells work).1 = .error (.rowLengthMismatch expected actual)) :
    writer.rowLength = some expected := by
  rcases step : writer.emit cells work with ⟨outcome, next, rest⟩
  rw [step] at refused
  obtain rfl : outcome = _ := refused
  obtain ⟨-, -, ⟨_, same⟩ | ⟨_, settled, same⟩⟩ := emit_error step
  · cases same
  · cases same
    exact settled

theorem writeRows_mismatch {rows : List Row} {expected actual : Nat}
    (settled : writer.rowLength = some length)
    (refused : (writer.writeRows rows work).1 = .error (.rowLengthMismatch expected actual)) :
    expected = length := by
  induction rows generalizing writer work with
  | nil => cases refused
  | cons cells rows ih =>
    have kept := (writeRow_keeps cells writer work).2
    rw [writeRows] at refused
    rcases step : writer.writeRow cells work with ⟨error | _, next, rest⟩
    · rw [step] at refused
      obtain rfl : error = _ := Except.error.inj refused
      have reported : writer.rowLength = some expected := by
        apply emit_mismatch
        rw [emit_of_writeRow_error step]
      exact Option.some.inj (reported.symm.trans settled)
    · rw [step] at refused kept
      exact ih (by rw [kept, settled]; rfl) refused

theorem run_of_leading (leads : request.leading state.1.fieldnames = some cells) :
    request.run state =
      match state.1.emit cells state.2 with
      | (.ok (), next, rest) => request.proceed next rest
      | failed => failed := by
  cases request with
  | one call =>
    cases call with
    | header =>
      have names : state.1.fieldnames = some cells := leads
      simp only [Request.run, Call.run, writeHeader, names, Request.proceed]
      split <;> simp_all
    | row _ | concat _ | record _ _ =>
      obtain rfl := Option.some.inj leads
      rfl
  | many rows =>
    obtain ⟨others, rfl⟩ := List.head?_eq_some_iff.mp leads
    simp only [Request.run, writeRows, writeRow, Request.proceed, List.tail_cons]
    rcases state.1.emit cells state.2 with ⟨error | _, next, rest⟩ <;> rfl
  | flush => cases leads

/-- What is done behind the first row can find fault only with other lengths than that row's. -/
theorem proceed_mismatch {expected actual : Nat} (settled : writer.rowLength = some length)
    (refused : (request.proceed writer work).1 = .error (.rowLengthMismatch expected actual)) :
    expected = length := by
  cases request with
  | one call => cases call <;> cases refused
  | many rows => exact writeRows_mismatch (by exact settled) refused
  | flush => cases refused

theorem settle_eq_self (settled : state.1.rowLength = some length) :
    settle length state = state := by
  rw [settle, ← settled]

/-- A request for no row does not see the row length. -/
theorem run_settle_of_none (quiet : request.leading state.1.fieldnames = none) :
    request.run (settle length state) =
      ((request.run state).1, settle length (request.run state).2) := by
  cases request with
  | one call =>
    cases call with
    | header =>
      have names : state.1.fieldnames = none := quiet
      simp [Request.run, Call.run, writeHeader, settle, names]
    | _ => cases quiet
  | many rows =>
    cases rows with
    | nil => rfl
    | cons => cases quiet
  | flush => rfl

theorem run_settle (unsettled : state.1.rowLength = none)
    (leads : request.leading state.1.fieldnames = some cells) (fits : cells.length = length) :
    request.run (settle length state) = request.run state := by
  have same : request.leading (settle length state).1.fieldnames = some cells := leads
  rw [run_of_leading leads, run_of_leading same, emit_settle unsettled fits]

/-- A first row of another length than that settled on tells the two writers apart. -/
theorem run_settle_ne (unsettled : state.1.rowLength = none)
    (leads : request.leading state.1.fieldnames = some cells) (other : cells.length ≠ length) :
    (request.run (settle length state)).1 ≠ (request.run state).1 := by
  have refused : (request.run (settle length state)).1 =
      .error (.rowLengthMismatch length cells.length) := by
    have same : request.leading (settle length state).1.fieldnames = some cells := leads
    rw [run_of_leading same, emit_settle_of_ne other]
  rw [refused, run_of_leading leads]
  intro same
  have kept := (emit_keeps cells state.1 state.2).2
  rw [unsettled] at kept
  rcases step : state.1.emit cells state.2 with ⟨error | _, next, rest⟩
  · rw [step] at same
    have reported : state.1.rowLength = some length :=
      emit_mismatch (by rw [step]; exact same.symm)
    rw [unsettled] at reported
    cases reported
  · rw [step] at same kept
    exact other (proceed_mismatch kept same.symm).symm

/-- As long as the first row has the length that was settled on, nobody can tell that one was. -/
theorem results_settle {requests : List Request} (unsettled : state.1.rowLength = none)
    (fits : ∀ cells ∈ requests.findSome? (Request.leading state.1.fieldnames),
      cells.length = length) :
    results requests (settle length state) = results requests state ∧
      after requests (settle length state) = settle length (after requests state) := by
  -- up to the first row the two writers differ by the length, and from there on not at all
  induction requests generalizing state with
  | nil => exact ⟨rfl, rfl⟩
  | cons request requests ih =>
    obtain ⟨names, settled⟩ := run_keeps request state
    rw [List.findSome?_cons] at fits
    simp only [results, after, List.foldl_cons]
    cases leads : request.leading state.1.fieldnames with
    | none =>
      rw [leads, unsettled] at settled
      rw [leads, ← names] at fits
      obtain ⟨same, left⟩ := ih settled fits
      rw [run_settle_of_none leads]
      exact ⟨by rw [same], left⟩
    | some cells =>
      rw [leads] at fits
      rw [leads, unsettled] at settled
      have cells_length := fits cells rfl
      rw [run_settle unsettled leads cells_length]
      refine ⟨rfl, (settle_eq_self ?_).symm⟩
      have later := (after_keeps requests (request.run state).2).2
      rw [settled, Option.map_some, cells_length] at later
      exact later

theorem results_settle_ne {requests : List Request} (unsettled : state.1.rowLength = none)
    (first : requests.findSome? (Request.leading state.1.fieldnames) = some cells)
    (other : cells.length ≠ length) :
    results requests (settle length state) ≠ results requests state := by
  induction requests generalizing state with
  | nil => cases first
  | cons request requests ih =>
    obtain ⟨names, settled⟩ := run_keeps request state
    rw [List.findSome?_cons] at first
    intro same
    obtain ⟨head, tail⟩ := List.cons.inj same
    cases leads : request.leading state.1.fieldnames with
    | none =>
      rw [leads, unsettled] at settled
      rw [leads, ← names] at first
      rw [run_settle_of_none leads] at tail
      exact ih settled first tail
    | some _ =>
      rw [leads] at first
      cases first
      exact run_settle_ne unsettled leads other head

theorem results_settle_iff (unsettled : state.1.rowLength = none) (length : Nat)
    (requests : List Request) :
    results requests (settle length state) = results requests state ↔
      ∀ cells ∈ requests.findSome? (Request.leading state.1.fieldnames), cells.length = length := by
  constructor
  · intro same cells first
    refine Decidable.of_not_not fun other => ?_
    exact results_settle_ne unsettled first other same
  · exact fun fits => (results_settle unsettled fits).1

/-- Two writers and their files that differ in nothing but the row length. -/
def Alike (one other : Writer × Workspace) : Prop :=
  one = ({ other.1 with rowLength := one.1.rowLength }, other.2)

theorem Alike.refl (state : Writer × Workspace) : Alike state state := rfl

theorem alike_settle (length : Nat) (state : Writer × Workspace) :
    Alike (settle length state) state := rfl

/-- What a refused call changes is the row length at most, and that only for a NUL in the row that
would have settled it. -/
theorem run_error {call : Call} {error : Error} {next : Writer} {rest : Workspace}
    (refused : call.run writer work = (.error error, next, rest)) :
    Alike (next, rest) (writer, work) ∧
      (next.rowLength ≠ writer.rowLength ↔
        writer.rowLength = none ∧ ∃ column, error = .nulByte column) ∧
      (next.rowLength ≠ writer.rowLength →
        (next, rest) = settle (call.cells writer.fieldnames).length (writer, work)) := by
  rcases emit_of_run_error refused with ⟨rfl, rfl, rfl⟩ | emitted
  · exact ⟨.refl _, by simp, fun changed => absurd rfl changed⟩
  · obtain ⟨rfl, same, reason⟩ := emit_error emitted
    have kept : next.rowLength =
        writer.rowLength.or (some (call.cells writer.fieldnames).length) := by
      have settles := (emit_keeps (call.cells writer.fieldnames) writer rest).2
      rwa [emitted] at settles
    have alike : Alike (next, rest) (writer, rest) := Prod.ext same rfl
    cases settled : writer.rowLength with
    | none =>
      rw [settled] at kept
      refine ⟨alike, ?_, fun _ => ?_⟩
      · obtain refusal | ⟨_, found, _⟩ := reason
        · simp [kept, refusal]
        · rw [settled] at found
          cases found
      · rw [alike, kept]
        rfl
    | some length =>
      rw [settled] at kept
      exact ⟨alike, by simp [kept], fun changed => absurd kept changed⟩

end Writer

namespace WriterOptions

/-- Nothing tells how long the rows are to be. -/
def Undeclared (options : WriterOptions) : Prop :=
  options.fieldnames = none ∧ options.recordFieldnames = none ∧ options.rowLength = none

variable {options : WriterOptions} {sink : Sink} {withHeader : Bool} {work opened : Workspace}
  {writer : Writer}

theorem header_none_iff {names : Option (List String)} (header : options.header = .ok names) :
    names = none ↔ options.fieldnames = none ∧ options.recordFieldnames = none := by
  unfold WriterOptions.header at header
  cases declared : options.fieldnames <;> cases record : options.recordFieldnames <;>
    simp only [declared, record] at header
  case some.some =>
    split at header <;> cases header
    simp
  all_goals
    cases header
    simp

/-- The row length is left open just when nothing tells it, and then there are no names. -/
theorem shape_none_iff {fieldnames : Option (List String)} {length : Option Nat}
    (shape : options.shape = .ok (fieldnames, length)) :
    (length = none ↔ options.Undeclared) ∧ (length = none → fieldnames = none) := by
  obtain ⟨names, header, shape⟩ := Outcome.do_eq_ok_iff.mp shape
  rw [Undeclared, ← and_assoc, ← header_none_iff header]
  cases names <;> cases declared : options.rowLength <;> rw [declared] at shape <;>
    simp only at shape
  case some.some =>
    split at shape <;> cases shape
    simp
  all_goals
    cases shape
    simp

theorem rowLength_of_build (built : options.build sink withHeader work = .ok (writer, opened)) :
    writer.rowLength = none ↔ options.Undeclared := by
  obtain ⟨⟨fieldnames, length⟩, shape, _⟩ := Outcome.do_eq_ok_iff.mp built
  obtain ⟨settled, unnamed⟩ := shape_none_iff shape
  rw [← settled]
  by_cases headed : (withHeader && fieldnames.isSome) = true
  · obtain ⟨rfl, named⟩ := Bool.and_eq_true_iff.mp headed
    have kept := (Writer.run_keeps (.one .header) (options.start sink fieldnames length, work)).2
    rw [build_of_headed shape named] at built
    split at built <;> cases built
    next step =>
      obtain ⟨names, rfl⟩ := Option.isSome_iff_exists.mp named
      simp only [Writer.Request.run, Writer.Call.run, step] at kept
      rw [kept]
      simpa [start, Writer.Request.leading] using unnamed
  · rw [build_of_unheaded shape (by simpa using headed)] at built
    cases built
    rfl

end WriterOptions

namespace Writer

variable {options : WriterOptions} {sink : Sink} {withHeader : Bool} {work opened now rest : Workspace}
  {writer here next : Writer} {earlier : List Request} {call : Call} {error : Error}

/-- A call that is refused writes nothing and counts nothing; all it can change is the row length.
It does so just when nothing was declared, no row was asked for before, and the row is refused for a
NUL. Then later calls are answered as if it had not been made just when the first row that they ask
for has as many cells as the refused one, and what is answered alike is written alike. -/
theorem results_of_refused
    (built : options.build sink withHeader work = .ok (writer, opened))
    (reached : after earlier (writer, opened) = (here, now))
    (refused : call.run here now = (.error error, next, rest)) :
    Alike (next, rest) (here, now) ∧
      (next.rowLength ≠ here.rowLength ↔ options.Undeclared ∧
        earlier.findSome? (Request.leading writer.fieldnames) = none ∧
          ∃ column, error = .nulByte column) ∧
      ∀ later,
        (results later (next, rest) = results later (here, now) ↔
          next.rowLength = here.rowLength ∨
            ∀ cells ∈ later.findSome? (Request.leading here.fieldnames),
              cells.length = (call.cells here.fieldnames).length) ∧
        (results later (next, rest) = results later (here, now) →
          Alike (after later (next, rest)) (after later (here, now))) := by
  have kept := (after_keeps earlier (writer, opened)).2
  rw [reached] at kept
  have unsettled : here.rowLength = none ↔ options.Undeclared ∧
      earlier.findSome? (Request.leading writer.fieldnames) = none := by
    rw [kept, ← WriterOptions.rowLength_of_build built]
    simp
  obtain ⟨alike, reason, changed⟩ := run_error refused
  refine ⟨alike, by rw [reason, unsettled, and_assoc], fun later => ?_⟩
  by_cases same : next.rowLength = here.rowLength
  · have whole : (next, rest) = (here, now) := by rw [alike, same]
    rw [whole]
    exact ⟨by simp [same], fun _ => .refl _⟩
  · have open_length : (here, now).1.rowLength = none := (reason.mp same).1
    rw [changed same]
    have told := results_settle_iff open_length (call.cells here.fieldnames).length later
    refine ⟨told.trans (or_iff_right same).symm, fun alike_results => ?_⟩
    rw [(results_settle open_length (told.mp alike_results)).2]
    exact alike_settle _ _

def rejectingOptions : WriterOptions := { nuls := .reject }

/-- A writer without declared length that refuses NULs. -/
def rejectingWriter : Writer := rejectingOptions.start (.memory []) none none

/-- With rows of its length behind it, a refused first row is as if it had not been asked for. -/
theorem results_of_refused_sample :
    ∃ next, Call.run (.row ["a\x00", "b"]) rejectingWriter {} = (.error (.nulByte 0), next, {}) ∧
      next.rowLength = some 2 ∧
      results [.many [["1", "2"], ["3", "4"]]] (next, {}) = [.ok ()] ∧
      Alike (after [.many [["1", "2"], ["3", "4"]]] (next, {}))
        (after [.many [["1", "2"], ["3", "4"]]] (rejectingWriter, {})) := by
  have built : rejectingOptions.build (.memory []) false {} = .ok (rejectingWriter, {}) := rfl
  have refused : Call.run (.row ["a\x00", "b"]) rejectingWriter {} =
      (.error (.nulByte 0), { rejectingWriter with rowLength := some 2 }, {}) := rfl
  obtain ⟨-, -, told⟩ :=
    results_of_refused built (show after [] (rejectingWriter, {}) = _ from rfl) refused
  obtain ⟨alike, left⟩ := told [.many [["1", "2"], ["3", "4"]]]
  have same := alike.mpr (.inr fun cells first => by cases first; rfl)
  exact ⟨_, refused, rfl, same, left same⟩

/-- A first row that is refused still settles the length. -/
theorem results_of_refused_ne :
    ∃ next, Call.run (.row ["bad\x00"]) rejectingWriter {} = (.error (.nulByte 0), next, {}) ∧
      rejectingWriter.rowLength = none ∧ next.rowLength = some 1 ∧
      results [.one (.row ["1", "2"])] (rejectingWriter, {}) = [.ok ()] ∧
      results [.one (.row ["1", "2"])] (next, {}) = [.error (.rowLengthMismatch 1 2)] :=
  ⟨_, rfl, rfl, rfl, rfl, rfl⟩

end Writer

end ResumableCsv
