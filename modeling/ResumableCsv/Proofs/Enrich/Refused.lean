import ResumableCsv.Enrich.Write
import ResumableCsv.Proofs.Enrich.Offers
import ResumableCsv.Proofs.Resume.Found
import ResumableCsv.Proofs.Resume.Output
import ResumableCsv.Proofs.Resume.Quiet

/-!
Outputs that a run cannot continue. What is objected to while the output is opened leaves it as it
is; what is objected to once the input has ended finds at most its last line ended.
-/

namespace ResumableCsv

namespace Enricher

/-- The file of an enricher that has written nothing yet still holds what it held, unless there is
nothing left to object to. -/
inductive Spares (path : String) (content : Bytes) (enricher : Enricher) (work : Workspace) : Prop
  | kept (idle : enricher.writer.output = ⟨.file path, .empty⟩)
      (held : work.file? path = some content)
  | quiet (resigned : ∀ resumer ∈ enricher.resumer, resumer.Quiet)

/-- The end of the input was noticed, and the file of an enricher that has written nothing yet still
holds what it held. -/
structure Ended (path : String) (content : Bytes) (enricher : Enricher) (work : Workspace) :
    Prop where
  none_left : enricher.reader.rows = []
  noticed : enricher.finished = true
  idle : enricher.writer.output = ⟨.file path, .empty⟩
  held : work.file? path = some content

variable {path : String} {content : Bytes} {enricher : Enricher} {work : Workspace}

theorem Ended.next (ended : Ended path content enricher work) :
    (enricher.next work).1 = none ∧
      Ended path content (enricher.next work).2.1 (enricher.next work).2.2 := by
  have last := Reader.next_of_rows_nil ended.none_left
  have still := Reader.rows_after_end last
  rcases step : enricher.reader.next with ⟨item, rest⟩
  rw [step] at last still
  obtain rfl : item = none := last
  rw [next_of_end step]
  exact ⟨by simp [objection, ended.noticed], still, rfl, ended.idle, ended.held⟩

/-- A row that is decided on spares the output still, whatever comes of it. -/
theorem Spares.decide (spares : Spares path content enricher work) {index : Nat} {row : Row}
    {outcome : Except Error Verdict} {resumer : Option Resumer} {rest : Workspace}
    (decided : Enricher.decide enricher.resumer index row work = (outcome, resumer, rest))
    (later : Enricher) (same : later.writer = enricher.writer) (held : later.resumer = resumer) :
    Spares path content later rest := by
  cases before : enricher.resumer with
  | none =>
    rw [before] at decided
    cases decided
    exact .quiet (by simp [held])
  | some resumer =>
    rw [before, Enricher.decide] at decided
    cases decided
    cases spares with
    | quiet resigned =>
      refine .quiet ?_
      rw [held]
      rintro _ ⟨⟩
      exact (resigned resumer before).filter index row work
    | kept idle there =>
      rcases resumer.filter_keeps index row work with unchanged | quiet
      · exact .kept (by rw [same, idle]) ((congrArg (·.file? path) unchanged).trans there)
      · refine .quiet ?_
        rw [held]
        rintro _ ⟨⟩
        exact quiet

theorem not_resume_of_decide {resumer last : Option Resumer} {index : Nat} {row : Row}
    {fault : ResumeFault} {rest : Workspace} :
    Enricher.decide resumer index row work ≠ (.error (.resume fault), last, rest) := by
  intro decided
  cases resumer with
  | none => cases decided
  | some resumer =>
    obtain ⟨other, same⟩ := Resumer.io_of_filter (congrArg Prod.fst decided)
    cases same

/-- Asking for the next row spares the output, and what is objected to comes at the end. -/
theorem Spares.next (spares : Spares path content enricher work) :
    Spares path content (enricher.next work).2.1 (enricher.next work).2.2 ∧
      ∀ fault, (enricher.next work).1 = some (.error (.resume fault)) →
        Ended path content (enricher.next work).2.1 (enricher.next work).2.2 := by
  fun_induction Enricher.next enricher work with
  | case1 enricher work reader step =>
    refine ⟨?_, fun fault objected => ?_⟩
    · cases spares with
      | kept idle held => exact .kept idle held
      | quiet resigned => exact .quiet resigned
    · cases spares with
      | kept idle held =>
        have still := Reader.rows_after_end (congrArg Prod.fst step)
        rw [step] at still
        exact ⟨still, rfl, idle, held⟩
      | quiet resigned =>
        unfold objection at objected
        split at objected
        · cases objected
        · cases resumer : enricher.resumer with
          | none => simp [resumer] at objected
          | some found => simp [resumer, (resigned found resumer).finish] at objected
  | case2 enricher work error reader step =>
    refine ⟨?_, fun fault objected => ?_⟩
    · cases spares with
      | kept idle held => exact .kept idle held
      | quiet resigned => exact .quiet resigned
    · cases objected
      exact (Reader.isReading_of_next (congrArg Prod.fst step)).elim
  | case3 enricher work row reader step index advanced error resumer rest decided =>
    refine ⟨spares.decide decided _ rfl rfl, fun fault objected => ?_⟩
    cases objected
    exact absurd decided not_resume_of_decide
  | case4 enricher work row reader step index advanced resume resumer rest decided =>
    exact ⟨spares.decide decided _ rfl rfl, fun fault objected => by cases objected⟩
  | case5 enricher work row reader step index advanced resumer rest decided ih =>
    exact ih (spares.decide decided _ rfl rfl)

theorem Ended.pull (ended : Ended path content enricher work) (limit : Option Nat) :
    Ended path content (enricher.pull limit work).2.1 (enricher.pull limit work).2.2 := by
  obtain ⟨nothing, still⟩ := ended.next
  rw [Enricher.pull]
  split
  · exact ended
  · split
    next last step =>
      rw [step] at still
      exact still
    next step =>
      rw [step] at nothing
      cases nothing

/-- Of a run that is objected to nothing reaches the output. -/
theorem Spares.pull (spares : Spares path content enricher work) {limit : Option Nat}
    {fault : ResumeFault} (objected : .error (.resume fault) ∈ (enricher.pull limit work).1) :
    Ended path content (enricher.pull limit work).2.1 (enricher.pull limit work).2.2 := by
  fun_induction Enricher.pull limit enricher work with
  | case1 => cases objected
  | case2 => cases objected
  | case3 limit enricher work more item rest restWork step items last following ih =>
    obtain ⟨later, ends⟩ := spares.next
    rw [step] at later ends
    rw [following] at ih
    rcases List.mem_cons.mp objected with first | member
    · have ended := (ends fault (by rw [← first])).pull (limit.map (· - 1))
      rwa [following] at ended
    · exact ih later member

/-- Letting go of an enricher that has written nothing writes nothing. -/
theorem Ended.close (ended : Ended path content enricher work) :
    (enricher.close work).2.file? path = some content := by
  have nothing : (enricher.close work).2 = work.append path [] := by
    rw [Enricher.close, Writer.close, ended.idle]
    rfl
  rw [nothing, Workspace.file?_append ended.held, List.append_nil]

end Enricher

namespace WriterOptions

variable {options : WriterOptions} {fieldnames : Option (List String)} {length : Option Nat}
  (shape : options.shape = .ok (fieldnames, length)) {context : OutputContext}
  {defaults : Defaults} {resumer : Resumer} {work : Workspace}

/-- An output that holds nothing is made anew, and holds nothing still when that fails. -/
theorem resumeWith_of_empty (held : work.file? resumer.output.path = some []) :
    ∃ outcome opened, options.resumeWith context resumer defaults work =
        (outcome, resumer, opened) ∧
      ((∃ error, outcome = .error error) → opened.file? resumer.output.path = some []) := by
  have vacant : work.size resumer.output.path = 0 := by
    rw [Workspace.size, held]
    rfl
  have anew := ResumableOutput.canResume_of_vacant vacant
  cases made : resumer.output.openSink work with
  | error error =>
    refine ⟨.error error, work, ?_, fun _ => held⟩
    simp [resumeWith, anew, made]
  | ok opening =>
    obtain ⟨sink, later⟩ := opening
    have emptied : later.file? resumer.output.path = some [] := by
      unfold ResumableOutput.openSink Workspace.create at made
      simp only [anew, Bool.false_eq_true, if_false] at made
      split at made
      · cases made
      · split at made
        · cases made
          exact work.file?_put_self _ _
        · cases made
    cases built : options.build sink options.writesHeader later with
    | error error =>
      refine ⟨.error error, later, ?_, fun _ => emptied⟩
      simp [resumeWith, anew, made, built]
    | ok writing =>
      obtain ⟨writer, opened⟩ := writing
      refine ⟨.ok writer, opened, ?_, fun failed => by simp at failed⟩
      simp [resumeWith, anew, made, built]

include shape

/-- An output that holds something is left as it is when the resumer objects to it, and otherwise it
gets its last line ended. -/
theorem resumeWith_of_filled {content : Bytes}
    (held : work.file? resumer.output.path = some content) (filled : content ≠ []) :
    (∃ error looked, options.resumeWith context resumer defaults work =
        (.error error, looked, work)) ∨
      ∃ writer looked, options.resumeWith context resumer defaults work =
          (.ok writer, looked, work.endLine resumer.output.path content) ∧
        writer.output = ⟨.file resumer.output.path, .empty⟩ := by
  rcases inspected : resumer.inspect context defaults work with ⟨error | _, looked⟩
  · exact .inl ⟨error, looked, resumeWith_refused rfl held filled inspected⟩
  · have still : looked.output.path = resumer.output.path := by
      simpa only [inspected] using resumer.path_inspect context defaults work
    have built : options.build (.file resumer.output.path) false
        (work.endLine resumer.output.path content) =
          .ok (options.start (.file resumer.output.path) fieldnames length,
            work.endLine resumer.output.path content) :=
      build_of_unheaded shape rfl
    exact .inr ⟨_, looked, resumeWith_behind rfl held filled still inspected built, rfl⟩

end WriterOptions

namespace EnrichOptions

theorem exists_shape (options : EnrichOptions) (plan : EnrichPlan) (reader : Reader)
    (defaults : Defaults) :
    ∃ fieldnames length,
      (options.writerOptions plan reader defaults).shape = .ok (fieldnames, length) := by
  cases fieldnames : plan.fieldnames with
  | none => exact ⟨none, some plan.outputLength, by
      simp [WriterOptions.shape, WriterOptions.header, writerOptions, fieldnames]
      rfl⟩
  | some names => exact ⟨some names, some names.length, by
      simp [WriterOptions.shape, WriterOptions.header, writerOptions, fieldnames]
      rfl⟩

section

variable {options : EnrichOptions} {tracking : Tracking} {reader : Reader} {defaults : Defaults}
  {resumer : Resumer} {work : Workspace} {content : Bytes}
  (held : work.file? resumer.output.path = some content)

include held

/-- A run goes on behind an output that the resumer has nothing against. -/
theorem openResumed_behind {plan : EnrichPlan} (planned : options.plan tracking reader = .ok plan)
    {fieldnames : Option (List String)} {length : Option Nat}
    (shape : (options.writerOptions plan reader defaults).shape = .ok (fieldnames, length))
    (filled : content ≠ []) {looked : Resumer}
    (still : looked.output.path = resumer.output.path)
    (inspected : resumer.inspect (options.outputContext plan reader) defaults work =
      (.ok (), looked)) :
    options.openResumed tracking reader resumer defaults work =
      (.ok
        { reader
          writer := (options.writerOptions plan reader defaults).start
            (.file resumer.output.path) fieldnames length
          plan
          endSymbol := options.endSymbol
          resumer := some looked },
        work.endLine resumer.output.path content) := by
  have built : (options.writerOptions plan reader defaults).build (.file resumer.output.path) false
      (work.endLine resumer.output.path content) = .ok (_, _) :=
    WriterOptions.build_of_unheaded shape rfl
  simp only [openResumed, planned,
    WriterOptions.resumeWith_behind rfl held filled still inspected built]

/-- Opening fails and leaves the output as it is, or it makes an empty output anew and leaves the
resumer as it was, or it gets the last line of the output ended. -/
theorem openResumed_cases :
    (∃ failure left, options.openResumed tracking reader resumer defaults work =
        (.error failure, left) ∧ left.file? resumer.output.path = some content) ∨
      ∃ enricher opened, options.openResumed tracking reader resumer defaults work =
          (.ok enricher, opened) ∧
        (enricher.resumer = some resumer ∨
          enricher.writer.output = ⟨.file resumer.output.path, .empty⟩ ∧
            opened = work.endLine resumer.output.path content) := by
  unfold openResumed
  split
  · exact .inl ⟨_, _, rfl, held⟩
  next plan planned =>
    obtain ⟨fieldnames, length, shape⟩ := options.exists_shape plan reader defaults
    simp only
    by_cases empty : content = []
    · subst empty
      obtain ⟨outcome, left, resumed, kept⟩ := WriterOptions.resumeWith_of_empty held
      rw [resumed]
      cases outcome with
      | error error => exact .inl ⟨_, _, rfl, kept ⟨error, rfl⟩⟩
      | ok writer => exact .inr ⟨_, _, rfl, .inl rfl⟩
    · rcases WriterOptions.resumeWith_of_filled shape held empty with
        ⟨error, looked, resumed⟩ | ⟨writer, looked, resumed, idle⟩
      · rw [resumed]
        exact .inl ⟨_, _, rfl, held⟩
      · rw [resumed]
        exact .inr ⟨_, _, rfl, .inr ⟨idle, rfl⟩⟩

/-- What keeps an output from being opened leaves it as it is. -/
theorem file?_of_openResumed_error {failure : Error × Resumer} {left : Workspace}
    (failed : options.openResumed tracking reader resumer defaults work =
      (.error failure, left)) : left.file? resumer.output.path = some content := by
  rcases openResumed_cases held with ⟨_, _, same, kept⟩ | ⟨_, _, same, _⟩
  · cases failed.symm.trans same
    exact kept
  · cases failed.symm.trans same

/-- An output that was opened has its last line ended, or else nothing will be objected to. -/
theorem spares_of_openResumed (fresh : resumer.Fresh) {enricher : Enricher} {opened : Workspace}
    (started : options.openResumed tracking reader resumer defaults work =
      (.ok enricher, opened)) :
    enricher.Spares resumer.output.path (Record.ended content) opened := by
  rcases openResumed_cases held with ⟨_, _, same, _⟩ | ⟨_, _, same, untouched | ⟨idle, ended⟩⟩
  · cases started.symm.trans same
  · cases started.symm.trans same
    refine .quiet ?_
    rw [untouched]
    rintro _ ⟨⟩
    exact fresh.quiet
  · cases started.symm.trans same
    refine .kept idle ?_
    rw [ended]
    exact Workspace.file?_endLine held

end

/-- An output whose run is refused is left alone: it is as it was when it could not be opened, and
when the refusal comes from reading the input, up to its end or any number of items, its last line
is ended and nothing else has changed. -/
theorem output_of_refused (options : EnrichOptions) (tracking : Tracking) (reader : Reader)
    (defaults : Defaults) {resumer : Resumer} (fresh : resumer.Fresh) {work : Workspace}
    {content : Bytes} (held : work.file? resumer.output.path = some content) :
    (∀ error back left, options.openResumed tracking reader resumer defaults work =
        (.error (error, back), left) → left.file? resumer.output.path = some content) ∧
    ∀ enricher opened, options.openResumed tracking reader resumer defaults work =
        (.ok enricher, opened) →
      ∀ limit items last left, enricher.pull limit opened = (items, last, left) →
        ∀ fault, .error (.resume fault) ∈ items →
          left.file? resumer.output.path = some (Record.ended content) ∧
          (last.close left).2.file? resumer.output.path = some (Record.ended content) := by
  refine ⟨fun error back left failed => file?_of_openResumed_error held failed, ?_⟩
  intro enricher opened started limit items last left ran fault objected
  have spares := spares_of_openResumed held fresh started
  have objected : .error (.resume fault) ∈ (enricher.pull limit opened).1 := by rwa [ran]
  have ended := spares.pull objected
  rw [ran] at ended
  exact ⟨ended.held, ended.close⟩

/-- An input that has a header row and nothing else. -/
def headerOnly : Reader :=
  { source := .listed [], headers := some (.ofNames ["name"]), rowLength := 1, delimiter := 0x2C,
    phase := .empty }

/-- An output of one row, whose line is not ended. -/
def unendedOutput : Record.Document :=
  ⟨[⟨[⟨false, Text.bytes "name"⟩], false⟩], [⟨false, Text.bytes "ann"⟩]⟩

def unendedWork : Workspace :=
  Workspace.put {} ResumableOutput.sample.path (Text.bytes "name\nann")

def unendedPlan : EnrichPlan :=
  { tracking := .plain, selected := [0], addedLength := 0, fieldnames := some ["name"] }

def unendedContext : OutputContext := ({} : EnrichOptions).outputContext unendedPlan headerOnly

/-- The row of the output is found, though its line is not ended. -/
theorem finds_unended :
    unendedContext.Finds ResumableOutput.sample.path {} unendedWork [["ann"]] := by
  have held : unendedWork.file? ResumableOutput.sample.path = some (Text.bytes "name\nann") :=
    Workspace.file?_put_self _ _ _
  have named : Workspace.Plain ResumableOutput.sample.path :=
    ⟨ResumableOutput.sample_named, ResumableOutput.sample_loose⟩
  have proper : unendedContext.dialect.Proper := ⟨by decide, by decide, by decide⟩
  have fair : unendedOutput.Fair unendedContext.dialect := by decide +kernel
  have same : (unendedOutput.records unendedContext.dialect).map (·.map Record.Spelled.content) =
      [["name"], ["ann"]].map (·.map Text.bytes) := by decide +kernel
  have left : dropMark (dropMark (Text.bytes "name\nann")) =
      unendedOutput.text unendedContext.dialect := by decide +kernel
  have even : ∀ row ∈ [["ann"]], row.length = ["name"].length := by simp
  have bare : ReaderOptions.Plain { unendedContext.readerOptions {} with noHeaders := true }
      unendedContext.dialect := ⟨rfl, rfl, rfl, rfl, rfl⟩
  obtain ⟨reader, opened, shows⟩ :=
    ReaderOptions.openPath_of_document bare proper fair same even left named held
  exact ⟨reader, opened, shows.rows_eq⟩

theorem inspect_unended :
    RowCountResumer.inspect unendedContext {} unendedWork { output := .sample } =
      (.ok (),
        { output := ResumableOutput.sample.tellAll .outputRowRead [["ann"]], rowCount := 1 }) :=
  @OutputContext.Finds.inspect_eq unendedContext {} unendedWork [["ann"]] { output := .sample }
    finds_unended

/-- The enricher of such a run, once the output is opened. -/
def unendedEnricher : Enricher :=
  { reader := headerOnly
    writer := (({} : EnrichOptions).writerOptions unendedPlan headerOnly {}).start
      (.file ResumableOutput.sample.path) (some ["name"]) (some 1)
    plan := unendedPlan
    endSymbol := defaultEndSymbol
    resumer := some (.rowCount
      { output := ResumableOutput.sample.tellAll .outputRowRead [["ann"]], rowCount := 1 }) }

theorem openResumed_unended :
    ({} : EnrichOptions).openResumed .plain headerOnly (.rowCount { output := .sample }) {}
        unendedWork =
      (.ok unendedEnricher,
        unendedWork.endLine ResumableOutput.sample.path (Text.bytes "name\nann")) := by
  have held : unendedWork.file? ResumableOutput.sample.path = some (Text.bytes "name\nann") :=
    Workspace.file?_put_self _ _ _
  have filled : Text.bytes "name\nann" ≠ [] := by decide +kernel
  have inspected : Resumer.inspect unendedContext {} unendedWork
      (.rowCount { output := .sample }) = (.ok (), .rowCount
        { output := ResumableOutput.sample.tellAll .outputRowRead [["ann"]], rowCount := 1 }) := by
    rw [Resumer.inspect, inspect_unended]
  have shape : (({} : EnrichOptions).writerOptions unendedPlan headerOnly {}).shape =
      .ok (some ["name"], some 1) := rfl
  exact openResumed_behind (by exact held) rfl shape filled
    (ResumableOutput.path_tellAll _ _ _) inspected

/-- The input has no row for the one of the output, and that is all such a run reports. -/
theorem pull_unended (work : Workspace) :
    (unendedEnricher.pull none work).1 = [.error (.resume (.inputTooShort 1 0))] := by
  have ended : unendedEnricher.reader.next = (none, headerOnly) := rfl
  have objected : unendedEnricher.next work =
      (some (.error (.resume (.inputTooShort 1 0))), { unendedEnricher with finished := true },
        work) := by
    rw [Enricher.next_of_end ended]
    rfl
  have again : Reader.next { unendedEnricher with finished := true }.reader =
      (none, headerOnly) := rfl
  rw [Enricher.pull_of_next_some objected, Enricher.pull_of_next_none]
  rw [Enricher.next_of_end again]
  rfl

theorem output_of_refused_sample :
    let final := unendedEnricher.pull none
      (unendedWork.endLine ResumableOutput.sample.path (Text.bytes "name\nann"))
    .error (.resume (.inputTooShort 1 0)) ∈ final.1 ∧
      (final.2.1.close final.2.2).2.file? ResumableOutput.sample.path =
        some (Record.ended (Text.bytes "name\nann")) := by
  have fresh : (Resumer.rowCount { output := .sample }).Fresh := .rowCount .sample
  have held : unendedWork.file? (Resumer.rowCount { output := .sample }).output.path =
      some (Text.bytes "name\nann") := Workspace.file?_put_self _ _ _
  have objected : .error (.resume (.inputTooShort 1 0)) ∈ (unendedEnricher.pull none
      (unendedWork.endLine ResumableOutput.sample.path (Text.bytes "name\nann"))).1 := by
    rw [pull_unended]
    exact List.mem_cons_self
  exact ⟨objected, ((output_of_refused {} .plain headerOnly {} fresh held).2 _ _
    openResumed_unended none _ _ _ rfl _ objected).2⟩

/-- A run that reports that the output cannot be continued, and has offered and written nothing, has
ended the last line of the output. -/
theorem output_of_refused_ne :
    ∃ enricher opened items last left,
      ({} : EnrichOptions).openResumed .plain headerOnly (.rowCount { output := .sample }) {}
          unendedWork = (.ok enricher, opened) ∧
        enricher.pull none opened = (items, last, left) ∧
        items = [.error (.resume (.inputTooShort 1 0))] ∧
        unendedWork.file? ResumableOutput.sample.path = some (Text.bytes "name\nann") ∧
        (last.close left).2.file? ResumableOutput.sample.path =
          some (Text.bytes "name\nann\n") := by
  have held : unendedWork.file? (Resumer.rowCount { output := .sample }).output.path =
      some (Text.bytes "name\nann") := Workspace.file?_put_self _ _ _
  have spares : unendedEnricher.Spares ResumableOutput.sample.path
      (Record.ended (Text.bytes "name\nann")) _ :=
    spares_of_openResumed held (.rowCount .sample) openResumed_unended
  have objected : .error (.resume (.inputTooShort 1 0)) ∈ (unendedEnricher.pull none
      (unendedWork.endLine ResumableOutput.sample.path (Text.bytes "name\nann"))).1 := by
    rw [pull_unended]
    exact List.mem_cons_self
  refine ⟨unendedEnricher, _, _, _, _, openResumed_unended, rfl, pull_unended _, held, ?_⟩
  rw [(spares.pull objected).close]
  decide +kernel

end EnrichOptions

end ResumableCsv
