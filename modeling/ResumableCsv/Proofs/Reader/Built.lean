import ResumableCsv.Proofs.Reader.Build
import ResumableCsv.Proofs.Reader.Items

/-!
What a reader that could be built has to give: the items of its source behind the header row, each
checked and divided, whatever was read ahead of them. Unless a column was renamed, its header row is
the first row of the source as it stands there.
-/

namespace ResumableCsv.Reader

variable {reader rest filled settled configured : Reader} {row : Row}

theorem coming_of_end (step : reader.nextExpanded = (.ok none, rest)) :
    reader.coming = [] ∧ rest.coming = [] := by
  cases coming : reader.coming with
  | nil =>
    obtain ⟨other, taken, later⟩ := nextExpanded_of_coming_nil coming
    cases step.symm.trans taken
    exact ⟨rfl, later⟩
  | cons item others =>
    obtain ⟨other, taken, _⟩ := nextExpanded_of_coming_cons coming
    cases item <;> cases step.symm.trans taken

theorem coming_of_row (step : reader.nextExpanded = (.ok (some row), rest)) :
    reader.coming = .ok row :: rest.coming := by
  cases coming : reader.coming with
  | nil =>
    obtain ⟨other, taken, _⟩ := nextExpanded_of_coming_nil coming
    cases step.symm.trans taken
  | cons item others =>
    obtain ⟨other, taken, later⟩ := nextExpanded_of_coming_cons coming
    cases item with
    | error error => cases step.symm.trans taken
    | ok first =>
      cases step.symm.trans taken
      rw [later]

/-- Reading ahead takes nothing away, also when an error is still to come. -/
theorem items_fillBuffer {budget used : Nat} {held : List Row} (ready : reader.phase = .ready)
    (built : reader.fillBuffer budget used held = .ok filled) :
    filled.phase = .ready ∧ filled.items = held.reverse.map .ok ++ reader.coming := by
  fun_induction fillBuffer budget used held reader with
  | case1 => cases built
  | case2 used held reader rest step =>
    have still : rest.phase = .ready := (kept_of_nextExpanded step).1.trans ready
    obtain ⟨nothing, later⟩ := coming_of_end step
    cases built
    refine ⟨still, ?_⟩
    rw [items_of_ready (by exact still), nothing, ← later]
    rfl
  | case3 used held reader row rest step spent =>
    have still : rest.phase = .ready := (kept_of_nextExpanded step).1.trans ready
    cases built
    refine ⟨still, ?_⟩
    rw [items_of_ready (by exact still), coming_of_row step]
    simp
    rfl
  | case4 used held reader row rest step spent ih =>
    obtain ⟨after, items⟩ := ih ((kept_of_nextExpanded step).1.trans ready) built
    refine ⟨after, ?_⟩
    rw [items, coming_of_row step]
    simp

theorem items_settle (ready : reader.phase = .ready) (built : reader.settle = .ok settled) :
    settled.items = reader.items := by
  unfold settle at built
  split at built
  next =>
    cases built
    rfl
  next unbuffered =>
    rw [items_of_ready ready, unbuffered]
    split at built
    next => cases built
    next rest step =>
      cases built
      rw [(coming_of_end step).1]
      rfl
    next row rest step =>
      have still : rest.phase = .ready := (kept_of_nextExpanded step).1.trans ready
      cases built
      rw [items_of_ready (by exact still), coming_of_row step]
      rfl

theorem items_finish {budget : Option Nat} (ready : reader.phase = .ready)
    (unbuffered : reader.buffer = [])
    (built : (prebuffered budget reader >>= settle) = .ok settled) :
    settled.items = reader.coming := by
  obtain ⟨filled, ahead, last⟩ := Outcome.do_eq_ok_iff.mp built
  cases budget with
  | none =>
    cases ahead
    rw [items_settle ready last, items_of_ready ready, unbuffered]
    rfl
  | some budget =>
    obtain ⟨still, items⟩ := items_fillBuffer ready ahead
    rw [items_settle still last, items]
    rfl

/-- Setting up a split leaves everything but the header row alone. -/
theorem exists_multiplexed {multiplex : Option Multiplex}
    (divided : multiplexed multiplex reader = .ok configured) :
    ∃ headers split, configured = { reader with headers := headers, split := split } := by
  cases multiplex with
  | none =>
    cases divided
    exact ⟨_, _, rfl⟩
  | some multiplex =>
    obtain ⟨_, headers, _, _, _, rfl⟩ := configureMultiplex_eq_ok_iff.mp divided
    exact ⟨headers, _, rfl⟩

theorem headers_multiplexed {multiplex : Option Multiplex}
    (unnamed : ∀ chosen ∈ multiplex, chosen.newColumn = none)
    (divided : multiplexed multiplex reader = .ok configured) :
    configured.headers = reader.headers := by
  cases multiplex with
  | none =>
    cases divided
    rfl
  | some multiplex =>
    obtain ⟨_, _, _, _, kept, rfl⟩ := configureMultiplex_eq_ok_iff.mp divided
    rw [unnamed multiplex rfl] at kept
    cases kept
    rfl

variable {options : ReaderOptions} {source : Source} {delimiter : UInt8}

/-- Building reads the first row, sets the split up and may read ahead. -/
theorem exists_of_build (built : build options source delimiter = .ok reader) :
    ∃ first rest configured, source.next = (.ok (some first), rest) ∧
      multiplexed options.multiplex (ofFirstRow options first rest delimiter) = .ok configured ∧
      (prebuffered options.prebuffer configured >>= settle) = .ok reader := by
  rcases step : source.next with ⟨error | _ | first, rest⟩
  · simp [build, step] at built
  · simp [build, step] at built
  · rw [build_of_first step] at built
    obtain ⟨filled, ready, settled⟩ := Outcome.do_eq_ok_iff.mp built
    obtain ⟨configured, divided, ahead⟩ := Outcome.do_eq_ok_iff.mp ready
    exact ⟨first, rest, configured, rfl, divided, Outcome.do_eq_ok_iff.mpr ⟨filled, ahead, settled⟩⟩

/-- A reader gives the items of its source behind the header row, checked and divided. -/
theorem items_of_build (built : build options source delimiter = .ok reader) :
    reader.items =
      (if options.noHeaders then source.items else source.items.tail).flatMap reader.divide := by
  obtain ⟨first, rest, configured, step, divided, finished⟩ := exists_of_build built
  obtain ⟨ready, unbuffered, single, unread⟩ : configured.phase = .ready ∧
      configured.buffer = [] ∧ configured.expanded = [] ∧
      configured.raw = if options.noHeaders then source.items else source.items.tail := by
    obtain ⟨_, _, rfl⟩ := exists_multiplexed divided
    cases headed : options.noHeaders <;>
      simp [ofFirstRow, headed, Reader.raw, Source.items_of_row step]
  rw [items_finish ready unbuffered finished, coming, single, unread,
    divide_of_shape (shape_finish finished)]
  rfl

/-- The header row of a reader without a rename is the first row of its source. -/
theorem shape_of_build (unnamed : ∀ chosen ∈ options.multiplex, chosen.newColumn = none)
    (built : build options source delimiter = .ok reader) :
    ∃ first rest, source.next = (.ok (some first), rest) ∧
      reader.headers = (if options.noHeaders then none else some (.ofNames first)) ∧
      reader.rowLength = first.length ∧ reader.nuls = options.nuls := by
  obtain ⟨first, rest, configured, step, divided, finished⟩ := exists_of_build built
  have shape := shape_finish finished
  have start := shape_ofFirstRow options first rest delimiter
  have headers := headers_multiplexed unnamed divided
  obtain ⟨_, split, rfl⟩ := exists_multiplexed divided
  refine ⟨first, rest, step, ?_, ?_, ?_⟩
  · calc reader.headers
      _ = _ := congrArg Shape.headers shape
      _ = (ofFirstRow options first rest delimiter).headers := headers
      _ = if options.noHeaders then none else some (.ofNames first) := congrArg Shape.headers start
  · calc reader.rowLength
      _ = (ofFirstRow options first rest delimiter).rowLength := congrArg Shape.rowLength shape
      _ = first.length := congrArg Shape.rowLength start
  · calc reader.nuls
      _ = (ofFirstRow options first rest delimiter).nuls := congrArg Shape.nuls shape
      _ = options.nuls := congrArg Shape.nuls start

theorem delimiter_of_build (built : build options source delimiter = .ok reader) :
    reader.delimiter = delimiter := by
  obtain ⟨first, rest, configured, _, divided, finished⟩ := exists_of_build built
  have shape := shape_finish finished
  obtain ⟨_, _, rfl⟩ := exists_multiplexed divided
  calc reader.delimiter
    _ = (ofFirstRow options first rest delimiter).delimiter := congrArg Shape.delimiter shape
    _ = delimiter := congrArg Shape.delimiter (shape_ofFirstRow options first rest delimiter)

theorem split_of_build (unsplit : options.multiplex = none)
    (built : build options source delimiter = .ok reader) : reader.split = none := by
  obtain ⟨first, rest, configured, _, divided, finished⟩ := exists_of_build built
  rw [unsplit] at divided
  cases divided
  have shape := (shape_finish finished).trans (shape_ofFirstRow options first rest delimiter)
  exact congrArg Shape.split shape

end ResumableCsv.Reader
