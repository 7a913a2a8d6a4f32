import ResumableCsv.Proofs.Reader.Built

/-!
Renaming the split column. A reader with a rename is the one without it but for its header row, where
every column of the old name goes by the new one, so that other columns keep their names just when
none of them shares the name of the split one.
-/

namespace ResumableCsv

namespace Reader

/-- A reader with its header row replaced. -/
def withHeaders (reader : Reader) (headers : Option Headers) : Reader :=
  { reader with headers := headers }

variable {reader unnamed renamed : Reader} {headers : Option Headers}

theorem takeRaw_withHeaders (reader : Reader) (headers : Option Headers) :
    (reader.withHeaders headers).takeRaw =
      (reader.takeRaw.1, reader.takeRaw.2.withHeaders headers) := by
  cases held : reader.lookahead <;> simp [takeRaw, withHeaders, held]

theorem nextSourceRow_withHeaders (reader : Reader) (headers : Option Headers) :
    (reader.withHeaders headers).nextSourceRow =
      (reader.nextSourceRow.1, reader.nextSourceRow.2.withHeaders headers) := by
  rw [nextSourceRow, nextSourceRow, takeRaw_withHeaders]
  rcases reader.takeRaw with ⟨error | _ | row, rest⟩ <;> rfl

/-- Rows are taken without a look at the header row. -/
theorem nextExpanded_withHeaders (reader : Reader) (headers : Option Headers) :
    (reader.withHeaders headers).nextExpanded =
      (reader.nextExpanded.1, reader.nextExpanded.2.withHeaders headers) := by
  have same : (reader.withHeaders headers).expanded = reader.expanded := rfl
  rw [nextExpanded, nextExpanded, same, nextSourceRow_withHeaders]
  split
  · rfl
  · rcases reader.nextSourceRow with ⟨error | _ | row, rest⟩ <;> rfl

theorem fillBuffer_withHeaders (headers : Option Headers) (budget used : Nat) (held : List Row)
    (reader : Reader) :
    (reader.withHeaders headers).fillBuffer budget used held =
      (reader.fillBuffer budget used held).map (·.withHeaders headers) := by
  fun_induction fillBuffer budget used held reader with
  | case1 used held reader error rest step =>
    have taken := nextExpanded_withHeaders reader headers
    rw [fillBuffer]
    split <;> simp_all [Except.map]
  | case2 used held reader rest step =>
    have taken := nextExpanded_withHeaders reader headers
    rw [step] at taken
    rw [fillBuffer_of_end taken]
    rfl
  | case3 used held reader row rest step spent =>
    have taken := nextExpanded_withHeaders reader headers
    rw [step] at taken
    rw [fillBuffer_of_row taken, if_pos spent]
    rfl
  | case4 used held reader row rest step spent ih =>
    have taken := nextExpanded_withHeaders reader headers
    rw [step] at taken
    rw [fillBuffer_of_row taken, if_neg spent, ih]

theorem prebuffered_withHeaders (headers : Option Headers) (budget : Option Nat) (reader : Reader) :
    prebuffered budget (reader.withHeaders headers) =
      (prebuffered budget reader).map (·.withHeaders headers) := by
  cases budget with
  | none => rfl
  | some budget => exact fillBuffer_withHeaders headers budget 0 [] reader

theorem settle_withHeaders (headers : Option Headers) (reader : Reader) :
    (reader.withHeaders headers).settle = reader.settle.map (·.withHeaders headers) := by
  have same : (reader.withHeaders headers).buffer = reader.buffer := rfl
  rw [settle, settle, same, nextExpanded_withHeaders]
  split
  · rfl
  · rcases reader.nextExpanded with ⟨error | _ | row, rest⟩ <;> rfl

theorem finish_withHeaders (headers : Option Headers) (budget : Option Nat) (reader : Reader) :
    (prebuffered budget (reader.withHeaders headers) >>= settle) =
      (prebuffered budget reader >>= settle).map (·.withHeaders headers) := by
  rw [prebuffered_withHeaders]
  cases prebuffered budget reader with
  | error error => rfl
  | ok filled => exact settle_withHeaders headers filled

theorem columnIndex_congr {other : Reader} (headers : other.headers = reader.headers)
    (length : other.rowLength = reader.rowLength) : other.columnIndex = reader.columnIndex := by
  funext key
  simp only [columnIndex, headers, length]

theorem nameAt_eq_ok_iff {known : Headers} {index : Nat} {old : String} :
    known.nameAt index = .ok old ↔ known.fieldnames[index]? = some old := by
  unfold Headers.nameAt
  cases known.fieldnames[index]? <;> simp

/-- The column is found by its position, but it is renamed by its name. -/
theorem renameSplit_some_eq_ok_iff {index : Nat} {new : String} {given : Option Headers} :
    renameSplit headers index (some new) = .ok given ↔
      ∃ known old, headers = some known ∧ known.fieldnames[index]? = some old ∧
        given = some (known.rename old new) := by
  cases headers with
  | none => simp [renameSplit]
  | some known =>
    rw [renameSplit, Outcome.do_eq_ok_iff]
    constructor
    · rintro ⟨old, named, same⟩
      cases same
      exact ⟨known, old, rfl, nameAt_eq_ok_iff.mp named, rfl⟩
    · rintro ⟨_, old, ⟨⟩, named, rfl⟩
      exact ⟨old, nameAt_eq_ok_iff.mpr named, rfl⟩

/-- Setting up the split with a rename sets up the one without it and then renames. -/
theorem configureMultiplex_renamed_iff {key : ColumnKey} {separator new : String}
    {configured : Reader} :
    reader.configureMultiplex { column := key, separator, newColumn := some new } =
        .ok configured ↔
      ∃ plain known index old,
        reader.configureMultiplex { column := key, separator } = .ok plain ∧
        reader.headers = some known ∧ reader.columnIndex key = .ok index ∧
        known.fieldnames[index]? = some old ∧
        configured = plain.withHeaders (some (known.rename old new)) := by
  simp only [configureMultiplex_eq_ok_iff, renameSplit_some_eq_ok_iff]
  constructor
  · rintro ⟨index, _, found, separated, ⟨known, old, headed, named, rfl⟩, rfl⟩
    exact ⟨_, known, index, old, ⟨index, _, found, separated, rfl, rfl⟩, headed, found, named, rfl⟩
  · rintro ⟨_, known, index, old, ⟨index', _, found', separated, kept, rfl⟩, headed, found, named,
      rfl⟩
    cases kept
    cases found.symm.trans found'
    exact ⟨index, _, found, separated, ⟨known, old, headed, named, rfl⟩, rfl⟩

/-- A split without a rename leaves the header row, and so the columns, as they are. -/
theorem known_of_configureMultiplex {key : ColumnKey} {separator : String} {plain : Reader}
    (divided : reader.configureMultiplex { column := key, separator } = .ok plain) :
    plain.headers = reader.headers ∧ plain.columnIndex = reader.columnIndex := by
  obtain ⟨_, _, _, _, kept, rfl⟩ := configureMultiplex_eq_ok_iff.mp divided
  cases kept
  exact ⟨rfl, columnIndex_congr rfl rfl⟩

theorem known_of_finish {budget : Option Nat} {settled : Reader}
    (built : (prebuffered budget reader >>= settle) = .ok settled) :
    settled.headers = reader.headers ∧ settled.columnIndex = reader.columnIndex := by
  have shape := shape_finish built
  have headers : settled.headers = reader.headers := congrArg Shape.headers shape
  exact ⟨headers, columnIndex_congr headers (congrArg Shape.rowLength shape)⟩

/-- Options that split a column, with a rename or without. -/
def splitting (options : ReaderOptions) (key : ColumnKey) (separator : String)
    (newColumn : Option String) : ReaderOptions :=
  { options with multiplex := some { column := key, separator, newColumn } }

variable {options : ReaderOptions} {key : ColumnKey} {separator new : String}

theorem build_of_splitting {newColumn : Option String} {source rest : Source} {first : Row}
    (step : source.next = (.ok (some first), rest)) (delimiter : UInt8) :
    build (splitting options key separator newColumn) source delimiter =
      (ofFirstRow options first rest delimiter).configureMultiplex
          { column := key, separator, newColumn } >>=
        fun configured => prebuffered options.prebuffer configured >>= settle := by
  rw [build_of_first step]
  exact bind_assoc _ _ _

/-- A rename changes the header row of the reader that is built, and nothing else. -/
theorem build_renamed_iff {source : Source} {delimiter : UInt8} :
    build (splitting options key separator (some new)) source delimiter = .ok renamed ↔
      ∃ unnamed known index old,
        build (splitting options key separator none) source delimiter = .ok unnamed ∧
        unnamed.headers = some known ∧ unnamed.columnIndex key = .ok index ∧
        known.fieldnames[index]? = some old ∧
        renamed = unnamed.withHeaders (some (known.rename old new)) := by
  rcases step : source.next with ⟨error | _ | first, rest⟩
  · simp [build, step]
  · simp [build, step]
  · rw [build_of_splitting step, build_of_splitting step]
    -- Reading ahead never looks at the header row, so the rename may as well be made last.
    constructor
    · intro built
      obtain ⟨_, configured, finished⟩ := Outcome.do_eq_ok_iff.mp built
      obtain ⟨plain, known, index, old, divided, headed, found, named, rfl⟩ :=
        configureMultiplex_renamed_iff.mp configured
      rw [finish_withHeaders] at finished
      obtain ⟨unnamed, settled, rfl⟩ := Outcome.map_eq_ok_iff.mp finished
      have divides := known_of_configureMultiplex divided
      have last := known_of_finish settled
      exact ⟨unnamed, known, index, old, Outcome.do_eq_ok_iff.mpr ⟨plain, divided, settled⟩,
        (last.1.trans divides.1).trans headed, by rw [last.2, divides.2, found], named, rfl⟩
    · rintro ⟨unnamed, known, index, old, built, headed, found, named, rfl⟩
      obtain ⟨plain, divided, settled⟩ := Outcome.do_eq_ok_iff.mp built
      have divides := known_of_configureMultiplex divided
      have last := known_of_finish settled
      have configured : (ofFirstRow options first rest delimiter).configureMultiplex
          { column := key, separator, newColumn := some new } = .ok _ :=
        configureMultiplex_renamed_iff.mpr
          ⟨plain, known, index, old, divided, (last.1.trans divides.1).symm.trans headed,
            by rw [← divides.2, ← last.2, found], named, rfl⟩
      refine Outcome.do_eq_ok_iff.mpr ⟨_, configured, ?_⟩
      rw [finish_withHeaders, settled]
      rfl

/-- The split column of a reader is one of its columns. -/
theorem columnIndex_of_splitting {source : Source} {delimiter : UInt8}
    (built : build (splitting options key separator none) source delimiter = .ok unnamed) :
    ∃ index, unnamed.columnIndex key = .ok index := by
  obtain ⟨first, rest, configured, _, divided, finished⟩ := exists_of_build built
  obtain ⟨index, _, found, _⟩ := configureMultiplex_eq_ok_iff.mp divided
  exact ⟨index, by rw [(known_of_finish finished).2, (known_of_configureMultiplex divided).2, found]⟩

/-- Renaming by name changes one place just when the name stands nowhere else, or stays. -/
theorem rename_eq_set_iff {names : List String} {index : Nat} {old : String} (new : String)
    (named : names[index]? = some old) :
    (names.map fun name => if name = old then new else name) = names.set index new ↔
      new = old ∨ ∀ other, names[other]? = some old → other = index := by
  constructor
  · intro same
    by_cases stays : new = old
    · exact .inl stays
    · refine .inr fun other found => ?_
      by_contra distinct
      have place := congrArg (·[other]?) same
      rw [List.getElem?_map, List.getElem?_set_ne (Ne.symm distinct), found] at place
      simp [stays] at place
  · intro apart
    apply List.ext_getElem?
    intro other
    rw [List.getElem?_map]
    by_cases here : other = index
    · obtain ⟨inside, _⟩ := List.getElem?_eq_some_iff.mp named
      rw [here, named, List.getElem?_set_self inside]
      simp
    · rw [List.getElem?_set_ne (Ne.symm here)]
      cases found : names[other]? with
      | none => rfl
      | some name =>
        by_cases same : name = old
        · rcases apart with stays | only
          · simp [same, stays]
          · exact absurd (only other (found.trans (congrArg some same))) here
        · simp [same]

theorem sourceOn_splitting (newColumn : Option String) (origin : Origin) :
    (splitting options key separator newColumn).sourceOn origin = options.sourceOn origin := by
  cases origin <;> rfl

/-- The header row of a split reader is the first row of its source. -/
theorem header_of_splitting {source : Source} {delimiter : UInt8} {known : Headers}
    (built : build (splitting options key separator none) source delimiter = .ok unnamed)
    (headed : unnamed.headers = some known) :
    ∃ names rest, source.next = (.ok (some names), rest) ∧ known = .ofNames names := by
  have plain : ∀ chosen ∈ (splitting options key separator none).multiplex,
      chosen.newColumn = none := by
    simp [splitting]
  obtain ⟨names, rest, step, headers, _⟩ := shape_of_build plain built
  rw [headers] at headed
  split at headed
  · cases headed
  · exact ⟨names, rest, step, (Option.some.inj headed).symm⟩

/-- Renaming the split column changes the header row alone, the first row of the source, and there it
puts the new name in every place of the old one. So only the split column is renamed just when the
two names are the same or the old one stands nowhere else. A reader with a rename opens whenever the
one without it does and has a header row. -/
theorem fieldnames_of_renamed (options : ReaderOptions) (origin : Origin) (key : ColumnKey)
    (separator new : String) :
    (∀ renamed, (splitting options key separator (some new)).openOn origin = .ok renamed →
      ∃ (source : Source) (delimiter : UInt8) (rest : Source) (names : List String)
        (unnamed : Reader) (index : Nat) (inside : index < names.length),
        options.sourceOn origin = .ok (source, delimiter) ∧
        source.next = (.ok (some names), rest) ∧
        (Headers.ofNames names).resolve key = .ok index ∧
        (splitting options key separator none).openOn origin = .ok unnamed ∧
        unnamed.headers = some (.ofNames names) ∧
        renamed = unnamed.withHeaders renamed.headers ∧
        renamed.fieldnames =
          some (names.map fun name => if name = names[index] then new else name) ∧
        (renamed.fieldnames = some (names.set index new) ↔
          new = names[index] ∨ ∀ other, names[other]? = some names[index] → other = index)) ∧
    ∀ unnamed, (splitting options key separator none).openOn origin = .ok unnamed →
      unnamed.headers ≠ none →
      ∃ renamed, (splitting options key separator (some new)).openOn origin = .ok renamed := by
  constructor
  · intro renamed opened
    obtain ⟨source, delimiter, reached, built⟩ := ReaderOptions.openOn_eq_ok_iff.mp opened
    obtain ⟨unnamed, known, index, old, split, headed, found, named, rfl⟩ :=
      build_renamed_iff.mp built
    obtain ⟨names, rest, step, rfl⟩ := header_of_splitting split headed
    obtain ⟨inside, rfl⟩ := List.getElem?_eq_some_iff.mp named
    rw [sourceOn_splitting] at reached
    have resolved : (Headers.ofNames names).resolve key = .ok index := by
      simpa only [columnIndex, headed] using found
    refine ⟨source, delimiter, rest, names, unnamed, index, inside, reached, step, resolved,
      ReaderOptions.openOn_eq_ok_iff.mpr ⟨source, delimiter, ?_, split⟩, headed, rfl, rfl, ?_⟩
    · rwa [sourceOn_splitting]
    · exact Option.some_inj.trans (rename_eq_set_iff new named)
  · intro unnamed opened headed
    obtain ⟨source, delimiter, reached, built⟩ := ReaderOptions.openOn_eq_ok_iff.mp opened
    obtain ⟨known, headed⟩ := Option.ne_none_iff_exists'.mp headed
    obtain ⟨names, rest, step, rfl⟩ := header_of_splitting built headed
    obtain ⟨index, found⟩ := columnIndex_of_splitting built
    have resolved : (Headers.ofNames names).resolve key = .ok index := by
      simpa only [columnIndex, headed] using found
    have named : names[index]? = some (names.get ⟨index, Headers.resolve_lt resolved⟩) :=
      List.getElem?_eq_getElem _
    refine ⟨_, ReaderOptions.openOn_eq_ok_iff.mpr ⟨source, delimiter, ?_,
      build_renamed_iff.mpr ⟨unnamed, _, index, _, built, headed, found, named, rfl⟩⟩⟩
    rwa [sourceOn_splitting] at reached ⊢

/-- The second of two columns called `tag` is split, and both are renamed. -/
theorem fieldnames_of_renamed_sample :
    let origin : Origin := .rows [["id", "tag", "tag"], ["1", "x", "y|z"]]
    ∃ renamed unnamed : Reader,
      (splitting {} (.nth "tag" 1) "|" (some "label")).openOn origin = .ok renamed ∧
        (splitting {} (.nth "tag" 1) "|" none).openOn origin = .ok unnamed ∧
        unnamed.headers ≠ none ∧
        renamed = unnamed.withHeaders renamed.headers ∧
        renamed.fieldnames = some ["id", "label", "label"] ∧
        renamed.fieldnames ≠ some ["id", "tag", "label"] ∧
        ∃ again, (splitting {} (.nth "tag" 1) "|" (some "tag")).openOn origin = .ok again := by
  intro origin
  have built : ((splitting {} (.nth "tag" 1) "|" (some "label")).openOn origin).map
      Reader.fieldnames = .ok (some ["id", "label", "label"]) := by decide +kernel
  obtain ⟨renamed, opened, _⟩ := Outcome.map_eq_ok_iff.mp built
  obtain ⟨_, _, _, names, unnamed, index, inside, reached, step, resolved, split, headed, frame,
    named, single⟩ := (fieldnames_of_renamed {} origin (.nth "tag" 1) "|" "label").1 renamed opened
  cases reached
  cases step
  cases resolved
  have filled : unnamed.headers ≠ none := by simp [headed]
  refine ⟨renamed, unnamed, opened, split, filled, frame, named, ?_,
    (fieldnames_of_renamed {} origin (.nth "tag" 1) "|" "tag").2 unnamed split filled⟩
  intro apart
  rcases single.mp apart with same | only
  · exact absurd (show "label" = "tag" from same) (by decide)
  · exact absurd (only 1 rfl) (by decide)

/-- Splitting the first of two columns called `a` renames the second one as well. -/
theorem fieldnames_of_renamed_ne :
    ∃ renamed, (splitting {} (.position 0) "|" (some "b")).openOn
        (.rows [["a", "a"], ["1|2", "3"]]) = .ok renamed ∧
      (Headers.ofNames ["a", "a"]).resolve (.position 0) = .ok 0 ∧
      renamed.fieldnames = some ["b", "b"] ∧
      renamed.fieldnames ≠ some (["a", "a"].set 0 "b") := by
  have built : ((splitting {} (.position 0) "|" (some "b")).openOn
      (.rows [["a", "a"], ["1|2", "3"]])).map Reader.fieldnames = .ok (some ["b", "b"]) := by
    decide +kernel
  obtain ⟨renamed, opened, named⟩ := Outcome.map_eq_ok_iff.mp built
  exact ⟨renamed, opened, rfl, named, by rw [named]; decide⟩

end Reader

end ResumableCsv
