import ResumableCsv.Proofs.Backward.Table
import ResumableCsv.Proofs.Resume.Output
import ResumableCsv.Proofs.Writer.Records

/-!
Outputs that are written in two runs. The second run goes on behind what the first one left, just as
one run over all the rows would have done, provided that the first record of the file is read back
as the declared header. Only the delimiter is handed to that check, and the cell that was written
last in a column is looked up from the end, where the line breaks in it are folded.
-/

namespace ResumableCsv

open Record

/-- The resumers that leave it to the caller which rows are written. -/
inductive Resumer.Appends (output : ResumableOutput) : Resumer → Prop
  | basic : Appends output (.basic output)
  | lastCell (column : ColumnKey) :
      Appends output (.lastCell { output := output, column := column })

namespace Resumer.Appends

variable {output : ResumableOutput} {resumer looked : Resumer} {outcome : Except Error Unit}
  {context : OutputContext} {defaults : Defaults} {work : Workspace}

theorem path_eq (appends : resumer.Appends output) : resumer.output.path = output.path := by
  cases appends <;> rfl

theorem path_inspect (appends : resumer.Appends output)
    (inspected : resumer.inspect context defaults work = (outcome, looked)) :
    looked.output.path = output.path := by
  cases appends with
  | basic =>
    cases inspected
    rfl
  | lastCell column =>
    simp only [Resumer.inspect, LastCellResumer.inspect] at inspected
    split at inspected <;> cases inspected <;> rfl

/-- The header check comes before anything else. -/
theorem inspect_of_mismatch (appends : resumer.Appends output) {error : Error}
    (refused : context.checkHeader output.path defaults work = .error error) :
    resumer.inspect context defaults work = (.error error, resumer) := by
  cases appends with
  | basic => simp only [Resumer.inspect, refused]
  | lastCell column =>
    simp only [Resumer.inspect, LastCellResumer.inspect, refused]
    rfl

end Resumer.Appends

namespace WriterOptions

/-- Opens an output, writes some rows behind what it holds, and lets it go. -/
def extend (options : WriterOptions) (resumer : Resumer) (defaults : Defaults) (rows : List Row)
    (work : Workspace) : Except Error Unit × Resumer × Workspace :=
  match options.openResumed resumer defaults work with
  | (.error error, resumer, work) => (.error error, resumer, work)
  | (.ok writer, resumer, work) =>
    let (outcome, writer, work) := writer.writeRows rows work
    (outcome, resumer, (writer.close work).2)

/-- What a resumer is told of the output. -/
def context (options : WriterOptions) (fieldnames : Option (List String)) : OutputContext :=
  { fieldnames := fieldnames, delimiter := options.delimiter }

/-- The records of a new output with these rows, header and all. -/
def table (options : WriterOptions) (fieldnames : Option (List String)) (rows : List Row) :
    List Row :=
  (if options.writesHeader then fieldnames.toList else []).map options.nuls.stored ++
    rows.map options.nuls.stored

section

variable {options : WriterOptions} {writer : Writer} {work opened : Workspace} {path : String}
  {length : Nat} {before : Bytes} {records rows : List Row} {resumer looked : Resumer}
  {defaults : Defaults}

/-- Rows that fit are all written, and stay in the file. -/
theorem extend_of_opened
    (resumed : options.openResumed resumer defaults work = (.ok writer, looked, opened))
    (adds : options.Adds writer opened path length before records)
    (fit : ∀ row ∈ rows, options.Fits length row) :
    ∃ final, options.extend resumer defaults rows work = (.ok (), looked, final) ∧
      final.Holds path
        (before ++ tableText options.dialect (records ++ rows.map options.nuls.stored)) := by
  obtain ⟨next, rest, written, added⟩ := adds.writeRows fit
  exact ⟨(next.close rest).2, by simp only [extend, resumed, written], added.close⟩

end

variable {options : WriterOptions} {fieldnames : Option (List String)} {length : Nat}
  (shape : options.shape = .ok (fieldnames, some length)) {output : ResumableOutput}
  {resumer looked : Resumer} {defaults : Defaults} {work : Workspace} {rows others : List Row}

include shape

theorem openResumed_eq :
    options.openResumed resumer defaults work =
      options.resumeWith (options.context fieldnames) resumer defaults work := by
  simp only [openResumed, outputContext, shape]
  rfl

/-- On a new output a run goes through when the writer can be built and all rows fit. -/
theorem built_of_extend_anew (home : work.Home output.path) (vacant : work.size output.path = 0)
    (went : (options.extend (.basic output) defaults rows work).1 = .ok ()) :
    (∃ writer opened, options.build (.file output.path) options.writesHeader
        (work.put output.path []) = .ok (writer, opened)) ∧
      ∀ row ∈ rows, options.Fits length row := by
  rw [extend, openResumed_eq shape] at went
  cases made :
      (options.resumeWith (options.context fieldnames) (.basic output) defaults work).1 with
  | error error =>
    rcases step : options.resumeWith (options.context fieldnames) (.basic output) defaults work with
      ⟨outcome, looked, later⟩
    rw [step] at made went
    obtain rfl : outcome = .error error := made
    cases went
  | ok writer =>
    have same : (Resumer.basic output).output.path = output.path := rfl
    obtain ⟨opened, built⟩ := build_of_resumeWith_anew same home vacant made
    have adds := adds_of_build shape (home.put_holds []) built
    rw [resumeWith_anew same home vacant built] at went
    exact ⟨⟨writer, opened, built⟩, adds.fits_of_writeRows went⟩

theorem extend_anew (defaults : Defaults) (home : work.Home output.path)
    (vacant : work.size output.path = 0)
    {writer : Writer} {opened : Workspace}
    (built : options.build (.file output.path) options.writesHeader (work.put output.path []) =
      .ok (writer, opened)) (fit : ∀ row ∈ rows, options.Fits length row) :
    ∃ final, options.extend (.basic output) defaults rows work = (.ok (), .basic output, final) ∧
      final.Holds output.path (tableText options.dialect (options.table fieldnames rows)) := by
  have resumed : options.resumeWith (options.context fieldnames) (.basic output) defaults work =
      (.ok writer, .basic output, opened) :=
    resumeWith_anew rfl home vacant built
  rw [← openResumed_eq shape] at resumed
  exact extend_of_opened resumed (adds_of_build shape (home.put_holds []) built) fit

/-- Rows that fit come behind what the resumer has nothing against. -/
theorem extend_behind (appends : resumer.Appends output) {content : Bytes}
    (holds : work.Holds output.path content) (ends : content.getLast? = some lineFeed)
    (fit : ∀ row ∈ rows, options.Fits length row)
    (inspected : resumer.inspect (options.context fieldnames) defaults work = (.ok (), looked)) :
    ∃ final, options.extend resumer defaults rows work = (.ok (), looked, final) ∧
      final.Holds output.path
        (content ++ tableText options.dialect (rows.map options.nuls.stored)) := by
  have filled : content ≠ [] := by
    rintro rfl
    cases ends
  have built : options.build (.file output.path) false (work.endLine output.path content) =
      .ok (options.start (.file output.path) fieldnames (some length), work) := by
    rw [Workspace.endLine_of_ended ends]
    exact build_of_unheaded shape rfl
  have resumed := resumeWith_behind appends.path_eq holds.held filled
    (appends.path_inspect inspected) inspected built
  rw [← openResumed_eq shape] at resumed
  rw [Workspace.endLine_of_ended ends] at built
  exact extend_of_opened resumed (adds_of_build shape holds built) fit

/-- An output that the resumer objects to is left as it is. -/
theorem extend_refused (appends : resumer.Appends output) {content : Bytes}
    (held : work.file? output.path = some content) (filled : content ≠ []) {error : Error}
    (inspected : resumer.inspect (options.context fieldnames) defaults work =
      (.error error, looked)) :
    options.extend resumer defaults rows work = (.error error, looked, work) := by
  rw [extend, openResumed_eq shape, resumeWith_refused appends.path_eq held filled inspected]

omit shape in
theorem table_append (rows others : List Row) :
    options.table fieldnames (rows ++ others) =
      options.table fieldnames rows ++ others.map options.nuls.stored := by
  rw [table, table, List.map_append, List.append_assoc]

omit shape in
theorem table_ne_nil (some_row : rows ≠ []) : options.table fieldnames rows ≠ [] := by
  simp [table, some_row]

/-- The records of an output have the length that was declared. -/
theorem length_table {writer : Writer} {opened : Workspace} {path : String}
    (home : work.Home path)
    (built : options.build (.file path) options.writesHeader (work.put path []) =
      .ok (writer, opened)) (fit : ∀ row ∈ rows, options.Fits length row) :
    ∀ row ∈ options.table fieldnames rows, row.length = length := by
  have adds := adds_of_build shape (home.put_holds []) built
  intro row member
  rcases List.mem_append.mp member with header | written
  · exact Option.some.inj ((adds.carries.even row header).symm.trans adds.length_eq)
  · obtain ⟨origin, there, rfl⟩ := List.mem_map.mp written
    rw [NulPolicy.length_stored]
    exact (fit origin there).length_eq

end WriterOptions

/-- What the last cell of a column is taken for when it is looked up from the end: the line breaks
in it are folded. -/
structure FoundLast (rows : List Row) (column : Nat) (found : Option String) : Prop where
  none_there : rows = [] → found = none
  folded : ∀ last ∈ rows.getLast?, ∃ cell, found = some cell ∧
    Text.bytes cell = foldBreaks (Text.bytes (last.cell column))

/-- The last cell is what was written unless there are line breaks of two characters in it. -/
theorem FoundLast.eq_iff {rows : List Row} {column : Nat} {found : Option String}
    (finds : FoundLast rows column found) {last : Row} (ends : rows.getLast? = some last) :
    found = some (last.cell column) ↔ ¬crlf <:+: Text.bytes (last.cell column) := by
  obtain ⟨cell, rfl, folded⟩ := finds.folded last ends
  rw [← foldBreaks_eq_self_iff, ← folded, Option.some.injEq]
  exact ⟨congrArg Text.bytes, fun same => Text.bytes_injective same⟩

theorem LastCellResumer.inspect_of_table {context : OutputContext} {defaults : Defaults}
    (kept : defaults.readNuls = .keep) (proper : context.dialect.Proper)
    {output : ResumableOutput} (named : Path.isConsole output.path = false) {length : Nat}
    {first : Row} {rows : List Row} (legible : Legible length (first :: rows)) {work : Workspace}
    (held : work.file? output.path = some (tableText context.dialect (first :: rows)))
    (expected : ∀ names ∈ context.fieldnames, names = first) {key : ColumnKey} {column : Nat}
    (resolved : context.outputColumn key = .ok column) (inside : column < length)
    (unmarked : ∀ row ∈ ((first :: rows).drop context.fieldnames.toList.length).getLast?,
      ∀ cell ∈ row.head?, ¬Text.StartsWithMark cell) :
    ∃ state, Resumer.inspect context defaults work
        (.lastCell { output := output, column := key }) =
          (.ok (), .lastCell { output := output, column := key, state := state }) ∧
      FoundLast ((first :: rows).drop context.fieldnames.toList.length) column state := by
  have path : Workspace.Plain output.path := ⟨named, output.plain⟩
  have plain : (context.backwardOptions defaults).Plain context.dialect := ⟨kept, rfl, rfl, rfl⟩
  have checked := OutputContext.checkHeader_of_table kept proper path legible held expected
  have data : (context.backwardOptions defaults).dataRows first rows =
      (first :: rows).drop context.fieldnames.toList.length := by
    cases declared : context.fieldnames <;>
      simp [BackwardOptions.dataRows, OutputContext.backwardOptions, OutputContext.hasHeaders,
        declared]
  have looks {state : Option String}
      (found : (context.backwardOptions defaults).lastCell output.path (.position column) work =
        .ok state) :
      Resumer.inspect context defaults work (.lastCell { output := output, column := key }) =
        (.ok (), .lastCell { output := output, column := key, state := state }) := by
    simp only [Resumer.inspect, LastCellResumer.inspect, checked, resolved, Outcome.ok_bind, found]
  rw [← data] at unmarked ⊢
  rcases List.eq_nil_or_concat ((context.backwardOptions defaults).dataRows first rows) with
    nothing | ⟨before, row, split⟩
  · refine ⟨none, looks ?_, fun _ => rfl, by simp [nothing]⟩
    exact BackwardOptions.lastCell_of_table_nil plain proper legible path held inside nothing
  · rw [List.concat_eq_append] at split
    rw [split, List.getLast?_concat] at unmarked
    obtain ⟨folded, folds, found⟩ := BackwardOptions.lastCell_of_table plain proper legible path
      held inside split (unmarked row rfl)
    refine ⟨some (folded.cell column), looks found, by simp [split], ?_⟩
    rw [split, List.getLast?_concat]
    rintro _ ⟨rfl⟩
    exact ⟨_, rfl, folds.bytes_cell column⟩

namespace WriterOptions

/-- Two runs, of which the second goes on with an output that the first has made, against one run
that goes through. The first run goes through; the second refuses the output or leaves just what
the one run leaves. Where the output is spelled as it would be under the default quote and starts
with no mark, the second run is refused if the first record is not the declared header, and else
goes through and finds the last cell but for its line breaks. -/
theorem two_runs_against_one (options : WriterOptions) {fieldnames : Option (List String)}
    {length : Nat} (shape : options.shape = .ok (fieldnames, some length))
    (positive : 0 < length) {defaults : Defaults} (kept : defaults.readNuls = .keep)
    {output : ResumableOutput} (named : Path.isConsole output.path = false) {work : Workspace}
    (home : work.Home output.path) (vacant : work.size output.path = 0) {rows : List Row}
    (some_row : rows ≠ []) (others : List Row)
    (single : (options.extend (.basic output) defaults (rows ++ others) work).1 = .ok ()) :
    let whole := options.extend (.basic output) defaults (rows ++ others) work
    let table := options.table fieldnames rows
    let context := options.context fieldnames
    let data := table.drop fieldnames.toList.length
    ∃ between,
      options.extend (.basic output) defaults rows work = (.ok (), .basic output, between) ∧
      between.file? output.path = some (tableText options.dialect table) ∧
      let second (resumer : Resumer) := options.extend resumer defaults others between
      (∀ resumer, resumer.Appends output →
        (second resumer).1 = .ok () ∧
            (second resumer).2.2.file? output.path = whole.2.2.file? output.path ∨
          ∃ error, (second resumer).1 = .error error ∧ (second resumer).2.2 = between) ∧
      (tableText options.dialect table = tableText context.dialect table → context.dialect.Proper →
        (∀ first ∈ table.head?, ∀ cell ∈ first.head?, ¬Text.StartsWithMark cell) →
        (∀ names ∈ fieldnames, ∀ first ∈ table.head?, first ≠ names →
          ∀ resumer, resumer.Appends output →
            (second resumer).1 = .error (.resume (.headerMismatch first names))) ∧
        ((∀ names ∈ fieldnames, table.head? = some names) →
          (second (.basic output)).1 = .ok () ∧
          ∀ key column, context.outputColumn key = .ok column → column < length →
            (∀ last ∈ data.getLast?, ∀ cell ∈ last.head?, ¬Text.StartsWithMark cell) →
            ∃ state, (second (.lastCell { output := output, column := key })).1 = .ok () ∧
              (second (.lastCell { output := output, column := key })).2.1 =
                .lastCell { output := output, column := key, state := state } ∧
              FoundLast data column state)) := by
  intro whole table context data
  obtain ⟨⟨writer, opened, built⟩, fit⟩ := built_of_extend_anew shape home vacant single
  obtain ⟨fitFirst, fitOthers⟩ := List.forall_mem_append.mp fit
  obtain ⟨between, ran, holds⟩ := extend_anew shape defaults home vacant built fitFirst
  obtain ⟨final, ranWhole, holdsWhole⟩ := extend_anew shape defaults home vacant built fit
  rw [table_append, tableText_append] at holdsWhole
  have ends : (tableText options.dialect table).getLast? = some lineFeed :=
    getLast?_tableText _ (table_ne_nil some_row)
  have whole_eq : whole.2.2 = final := by simp only [whole, ranWhole]
  -- What inspection says of the first output decides the second run, whatever is to be written.
  have goesOn {resumer looked : Resumer} (appends : resumer.Appends output)
      (inspected : resumer.inspect context defaults between = (.ok (), looked)) :
      (options.extend resumer defaults others between).1 = .ok () ∧
        (options.extend resumer defaults others between).2.1 = looked ∧
        (options.extend resumer defaults others between).2.2.file? output.path =
          whole.2.2.file? output.path := by
    obtain ⟨later, went, held⟩ := extend_behind shape appends holds ends fitOthers inspected
    rw [went, whole_eq, held.held, holdsWhole.held]
    exact ⟨rfl, rfl, rfl⟩
  have refuses {resumer looked : Resumer} {error : Error} (appends : resumer.Appends output)
      (inspected : resumer.inspect context defaults between = (.error error, looked)) :
      (options.extend resumer defaults others between).1 = .error error ∧
        (options.extend resumer defaults others between).2.2 = between := by
    have filled : tableText options.dialect table ≠ [] := tableText_ne_nil _ (table_ne_nil some_row)
    rw [extend_refused shape appends holds.held filled inspected]
    exact ⟨rfl, rfl⟩
  refine ⟨between, ran, holds.held, ?_, ?_⟩
  · intro resumer appends
    rcases inspected : resumer.inspect context defaults between with ⟨error | _, looked⟩
    · exact .inr ⟨error, refuses appends inspected⟩
    · obtain ⟨went, _, same⟩ := goesOn appends inspected
      exact .inl ⟨went, same⟩
  · intro readable properContext unmarked
    obtain ⟨first, more, split⟩ := List.exists_cons_of_ne_nil (show table ≠ [] from
      table_ne_nil some_row)
    have held := holds.held
    have even := length_table shape home built fitFirst
    rw [show options.table fieldnames rows = table from rfl] at held even
    rw [readable, split] at held
    rw [split] at unmarked even
    have legible : Legible length (first :: more) := ⟨positive, even, unmarked⟩
    have path : Workspace.Plain output.path := ⟨named, output.plain⟩
    refine ⟨?_, ?_⟩
    · intro names declared leading head other resumer appends
      rw [split] at head
      obtain rfl : first = leading := Option.some.inj head
      have refused := OutputContext.checkHeader_eq_of_table kept properContext path legible held
        (show context.fieldnames = some names from declared)
      rw [if_neg other] at refused
      exact (refuses appends (appends.inspect_of_mismatch refused)).1
    · intro announced
      have expected : ∀ names ∈ context.fieldnames, names = first := by
        intro names declared
        have head := announced names declared
        rw [split] at head
        exact (Option.some.inj head).symm
      have checked := OutputContext.checkHeader_of_table kept properContext path legible held
        expected
      have inspected : Resumer.inspect context defaults between (.basic output) =
          (.ok (), .basic output) := by
        simp only [Resumer.inspect, checked]
      refine ⟨(goesOn .basic inspected).1, ?_⟩
      intro key column resolved inside unmarkedLast
      simp only [data, split] at unmarkedLast ⊢
      obtain ⟨state, inspected, finds⟩ := LastCellResumer.inspect_of_table kept properContext named
        legible held expected resolved inside unmarkedLast
      obtain ⟨went, looked, _⟩ := goesOn (.lastCell key) inspected
      exact ⟨state, went, looked, finds⟩

def sample : WriterOptions := { fieldnames := some ["name", "note"] }

theorem two_runs_against_one_sample :
    ∃ between,
      sample.extend (.basic .sample) {} [["ann", "x"]] {} = (.ok (), .basic .sample, between) ∧
      let second := sample.extend (.lastCell { output := .sample, column := .position 0 }) {}
        [["bob", "y"]] between
      second.1 = .ok () ∧ second.2.1 = .lastCell
        { output := .sample, column := .position 0, state := some "ann" } := by
  have shape : sample.shape = .ok (some ["name", "note"], some 2) := rfl
  have home : Workspace.Home {} ResumableOutput.sample.path := ResumableOutput.sample_home
  have fit : ∀ row ∈ [["ann", "x"]] ++ [["bob", "y"]], sample.Fits 2 row := fun row member =>
    fits_of_keep rfl ((by decide : ∀ row ∈ [["ann", "x"]] ++ [["bob", "y"]], row.length = 2) row
      member)
  obtain ⟨final, single, _⟩ := extend_anew shape {} home rfl rfl fit
  obtain ⟨between, ran, _, _, told⟩ := two_runs_against_one sample shape (by decide) rfl
    ResumableOutput.sample_named home rfl (List.cons_ne_nil ["ann", "x"] []) [["bob", "y"]]
    (by rw [single])
  obtain ⟨_, announced⟩ := told rfl ⟨by decide, by decide, by decide⟩
    (by simp [table, sample, NulPolicy.stored, Text.StartsWithMark])
  obtain ⟨_, looked⟩ := announced (by rintro _ ⟨rfl⟩; rfl)
  obtain ⟨state, went, shown, finds⟩ := looked (.position 0) 0 rfl (by decide)
    (by simp [table, sample, NulPolicy.stored, Text.StartsWithMark])
  have last : (sample.table (some ["name", "note"]) [["ann", "x"]]).drop 1 = [["ann", "x"]] := rfl
  have found : state = some "ann" := (finds.eq_iff (congrArg List.getLast? last)).mpr (by decide)
  exact ⟨between, ran, went, by rw [shown, found]⟩

/-- Fields in single quotes. -/
def singleQuoted : WriterOptions := { quote := 0x27, fieldnames := some ["a,b"] }

/-- One run goes through where the second of two runs refuses what the first one left: the header
check is not told which quote was used. -/
theorem two_runs_against_one_singleQuoted :
    (singleQuoted.extend (.basic .sample) {} ([["1,2"]] ++ [["3"]]) {}).1 = .ok () ∧
    ∃ between,
      singleQuoted.extend (.basic .sample) {} [["1,2"]] {} = (.ok (), .basic .sample, between) ∧
      (singleQuoted.extend (.basic .sample) {} [["3"]] between).1 =
        .error (.resume (.headerMismatch ["'a", "b'"] ["a,b"])) := by
  have shape : singleQuoted.shape = .ok (some ["a,b"], some 1) := rfl
  have home : Workspace.Home {} ResumableOutput.sample.path := ResumableOutput.sample_home
  have fit : ∀ row ∈ [["1,2"]] ++ [["3"]], singleQuoted.Fits 1 row := fun row member =>
    fits_of_keep rfl ((by decide : ∀ row ∈ [["1,2"]] ++ [["3"]], row.length = 1) row member)
  obtain ⟨final, single, _⟩ := extend_anew shape {} home rfl rfl fit
  obtain ⟨between, ran, holds⟩ := extend_anew shape {} home rfl rfl
    (List.forall_mem_append.mp fit).1
  have text : tableText singleQuoted.dialect (singleQuoted.table (some ["a,b"]) [["1,2"]]) =
      tableText (singleQuoted.context (some ["a,b"])).dialect [["'a", "b'"], ["'1", "2'"]] := by
    decide +kernel
  have held := holds.held
  rw [text] at held
  have legible : Legible 2 [["'a", "b'"], ["'1", "2'"]] :=
    ⟨by decide, by decide, by simp [Text.StartsWithMark]⟩
  have kept : Defaults.readNuls {} = .keep := rfl
  have plain : Workspace.Plain ResumableOutput.sample.path :=
    ⟨ResumableOutput.sample_named, ResumableOutput.sample.plain⟩
  have refused : (singleQuoted.context (some ["a,b"])).checkHeader ResumableOutput.sample.path {}
      between = .error (.resume (.headerMismatch ["'a", "b'"] ["a,b"])) := by
    rw [OutputContext.checkHeader_eq_of_table kept ⟨by decide, by decide, by decide⟩ plain legible
      held rfl, if_neg (by decide)]
  have filled : tableText (singleQuoted.context (some ["a,b"])).dialect
      [["'a", "b'"], ["'1", "2'"]] ≠ [] := tableText_ne_nil _ (List.cons_ne_nil _ _)
  refine ⟨by rw [single], between, ran, ?_⟩
  rw [extend_refused shape .basic held filled (Resumer.Appends.basic.inspect_of_mismatch refused)]

end WriterOptions

end ResumableCsv
