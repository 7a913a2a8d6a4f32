import ResumableCsv.Proofs.Enrich.Pages
import ResumableCsv.Proofs.Resume.Skips

/-!
Outputs of paginated enrichments that were cut off anywhere between two rows: the batch at their end
tells the input row that was worked on, the checkpoint it had reached, and where the rows behind
that start.
-/

namespace ResumableCsv

/-- Where the beginning of a text in parts stops: behind some whole parts and in one more. -/
theorem exists_cut_of_flatMap {α β : Type} (f : α → List β) {items : List α} {cut : List β}
    (leading : cut <+: items.flatMap f) (some_left : cut ≠ []) :
    ∃ before item after piece, items = before ++ item :: after ∧ piece ≠ [] ∧ piece <+: f item ∧
      cut = before.flatMap f ++ piece := by
  induction items generalizing cut with
  | nil => exact absurd (List.prefix_nil.mp leading) some_left
  | cons item items ih =>
    rw [List.flatMap_cons] at leading
    rcases List.prefix_or_prefix_of_prefix leading (List.prefix_append (f item) _) with
      inside | ⟨rest, rfl⟩
    · exact ⟨[], item, items, cut, rfl, some_left, inside, rfl⟩
    · rcases List.eq_nil_or_concat rest with rfl | ⟨_, _, _⟩
      · refine ⟨[], item, items, f item ++ [], rfl, some_left, by simp, rfl⟩
      · have later : rest <+: items.flatMap f := (List.prefix_append_right_inj (f item)).mp leading
        have some_rest : rest ≠ [] := by simp_all
        obtain ⟨before, other, after, piece, rfl, filled, inside, rfl⟩ := ih later some_rest
        exact ⟨item :: before, other, after, piece, rfl, filled, inside, by simp⟩

namespace Job

variable (job : Job)

/-- Every input row is worked on page by page, in an output whose batches are told by a copied
column that tells input rows apart. -/
structure Paginates (key : ColumnKey) (value input : Nat) (pages : Nat → Row → List Page) :
    Prop where
  paged : job.tracking = .paged
  headed : job.plan.fieldnames.isSome = true
  resolved : job.context.outputColumn key = .ok value
  copied : job.plan.selected[value]? = some input
  distinct : (job.rows.map (·.cell input)).Nodup
  symbol : job.options.endSymbol ≠ ""
  symbol_unbroken : ¬crlf <:+: Text.bytes job.options.endSymbol
  value_unbroken : ∀ row ∈ job.rows, ¬crlf <:+: Text.bytes (row.cell input)
  unmarked_cells : ∀ row ∈ job.rows, ∀ index ∈ job.plan.selected.head?,
    ¬Text.StartsWithMark (row.cell index)
  sequence : ∀ index row, job.rows[index]? = some row →
    Page.Sequence job.options.endSymbol job.plan.addedLength (pages index row)

variable {job} {key : ColumnKey} {value input : Nat} {pages : Nat → Row → List Page}

theorem cell_value (copied : job.plan.selected[value]? = some input) (row : Row)
    (mark : Option String) (added : Row) :
    (job.record row mark added).cell value = row.cell input := by
  have inside : value < (job.plan.selected.map row.cell).length := by
    obtain ⟨bound, _⟩ := List.getElem?_eq_some_iff.mp copied
    simpa using bound
  rw [record, Row.cell, List.append_assoc, List.getElem?_append_left inside, List.getElem?_map,
    copied]
  rfl

theorem cell_cursor (row : Row) (mark : String) (added : Row) :
    (job.record row (some mark) added).cell job.plan.selected.length = mark := by
  have behind : (job.plan.selected.map row.cell).length ≤ job.plan.selected.length := by simp
  rw [record, Row.cell, List.append_assoc, List.getElem?_append_right behind]
  simp

theorem exists_pageRows (job : Job) (row : Row) (mark : String) {addenda : List Row}
    (some_row : addenda ≠ []) :
    ∃ opened last, addenda = opened ++ [last] ∧ job.pageRows row mark addenda =
      opened.map (job.record row (some "")) ++ [job.record row (some mark) last] := by
  induction addenda with
  | nil => exact absurd rfl some_row
  | cons added addenda ih =>
    cases addenda with
    | nil => exact ⟨[], added, rfl, rfl⟩
    | cons next others =>
      obtain ⟨opened, last, same, rows⟩ := ih (by simp)
      exact ⟨added :: opened, last, by rw [same]; rfl, by rw [pageRows, rows]; rfl; simp⟩

/-- A page is open rows and one row with its cursor. -/
theorem exists_pageRecords (row : Row) {page : Page}
    (sized : ∀ added ∈ page.addenda, added.length = job.plan.addedLength) :
    ∃ opened last, job.pageRecords row page = opened.map (job.record row (some "")) ++
        [job.record row (some (page.cursor.getD job.options.endSymbol)) last] ∧
      ∀ added ∈ opened ++ [last], added.length = job.plan.addedLength := by
  have filled : (if page.addenda.isEmpty then [job.plan.padding] else page.addenda) ≠ [] := by
    cases page.addenda <;> simp
  have padded : ∀ added ∈ if page.addenda.isEmpty then [job.plan.padding] else page.addenda,
      added.length = job.plan.addedLength := by
    split
    · simp [EnrichPlan.padding]
    · exact sized
  obtain ⟨opened, last, same, rows⟩ :=
    exists_pageRows job row (page.cursor.getD job.options.endSymbol) filled
  rw [same] at padded
  exact ⟨opened, last, rows, padded⟩

/-- The last record of some pages bears the cursor of the last page. -/
theorem getLast?_rowRecords (row : Row) {pages : List Page} {last : Page}
    (found : pages.getLast? = some last)
    (sized : ∀ added ∈ last.addenda, added.length = job.plan.addedLength) (before : List Row) :
    ∃ added, (before ++ job.rowRecords row pages).getLast? =
      some (job.record row (some (last.cursor.getD job.options.endSymbol)) added) := by
  obtain ⟨init, rfl⟩ := List.getLast?_eq_some_iff.mp found
  obtain ⟨opened, added, same, _⟩ := exists_pageRecords row sized
  refine ⟨added, ?_⟩
  rw [rowRecords, List.flatMap_append, List.flatMap_singleton, same, ← List.append_assoc,
    ← List.append_assoc, List.getLast?_concat]

theorem recordsFrom_append (pages : Nat → Row → List Page) (index : Nat) (rows others : List Row) :
    job.recordsFrom pages index (rows ++ others) =
      job.recordsFrom pages index rows ++ job.recordsFrom pages (index + rows.length) others := by
  rw [recordsFrom, List.zipIdx_append, List.flatMap_append]
  rfl

theorem rowRecords_append (row : Row) (pages others : List Page) :
    job.rowRecords row (pages ++ others) = job.rowRecords row pages ++ job.rowRecords row others :=
  List.flatMap_append

namespace Paginates

variable (paginates : job.Paginates key value input pages)

include paginates

theorem exists_header : ∃ names, job.plan.fieldnames = some names ∧ job.header = [names] := by
  obtain ⟨names, declared⟩ := Option.isSome_iff_exists.mp paginates.headed
  exact ⟨names, declared, by simp [header, declared]⟩

/-- What holds of every output row. -/
theorem fit_of_mem {index : Nat} {row : Row} (found : job.rows[index]? = some row) {record : Row}
    (member : record ∈ job.rowRecords row (pages index row)) :
    record.length = job.plan.outputLength ∧ record.Clear ∧
      record.Telling (job.columns value) ∧ record.cell value = row.cell input := by
  obtain ⟨page, there, inside⟩ := List.mem_flatMap.mp member
  have sequence := paginates.sequence index row found
  have unbroken := sequence.cursor_unbroken paginates.symbol_unbroken there
  have shape : ∃ mark added, record = job.record row (some mark) added ∧
      added.length = job.plan.addedLength ∧ ¬crlf <:+: Text.bytes mark := by
    obtain ⟨opened, last, same, sized⟩ := exists_pageRecords row (sequence.sized page there)
    rw [same] at inside
    rcases List.mem_append.mp inside with early | final
    · obtain ⟨added, listed, rfl⟩ := List.mem_map.mp early
      exact ⟨"", added, rfl, sized added (by simp [listed]), by decide⟩
    · exact ⟨_, last, List.mem_singleton.mp final, sized last (by simp), unbroken⟩
  obtain ⟨mark, added, rfl, sized, kept⟩ := shape
  have value_eq := cell_value paginates.copied row (some mark) added
  refine ⟨length_record paginates.paged sized, ⟨by simp [record], ?_⟩, ⟨?_, ?_⟩, value_eq⟩
  · intro cell leading
    have first := paginates.unmarked_cells row (List.mem_of_getElem? found)
    cases selected : job.plan.selected with
    | nil =>
      have copied := paginates.copied
      simp [selected] at copied
    | cons index others =>
      rw [selected] at first
      simp only [record, selected, List.map_cons, List.cons_append, List.head?_cons] at leading
      cases leading
      exact first index rfl
  · change ¬crlf <:+: Text.bytes (Row.cell _ value)
    rw [value_eq]
    exact paginates.value_unbroken row (List.mem_of_getElem? found)
  · change ¬crlf <:+: Text.bytes (Row.cell _ job.plan.selected.length)
    rw [cell_cursor]
    exact kept

theorem fit {record : Row} (member : record ∈ job.recordsFrom pages 0 job.rows) :
    record.length = job.plan.outputLength ∧ record.Clear ∧ record.Telling (job.columns value) := by
  obtain ⟨⟨row, index⟩, there, inside⟩ := List.mem_flatMap.mp member
  obtain ⟨length, clear, telling, _⟩ :=
    paginates.fit_of_mem (List.mem_zipIdx_iff_getElem?.mp there) inside
  exact ⟨length, clear, telling⟩

/-- A cut through the output falls behind some pages of one input row, or inside the page behind
them, of which only open rows are left then. -/
theorem exists_cut {cut : List Row} (leading : cut <+: job.recordsFrom pages 0 job.rows)
    (some_left : cut ≠ []) :
    ∃ earlier row later done rest opened, job.rows = earlier ++ row :: later ∧
      pages earlier.length row = done ++ rest ∧
      cut = job.recordsFrom pages 0 earlier ++ job.rowRecords row done ++ opened ∧
      (∀ record ∈ opened, record.Open (job.columns value) (row.cell input)) ∧
      (opened = [] → done ≠ []) := by
  obtain ⟨before, ⟨row, index⟩, after, piece, split, filled, inside, rfl⟩ :=
    exists_cut_of_flatMap _ leading some_left
  obtain ⟨earlier, others, rows, rfl, behind⟩ := List.zipIdx_eq_append_iff.mp split
  obtain ⟨first, later, rfl, same, _⟩ := List.zipIdx_eq_cons_iff.mp behind.symm
  obtain ⟨rfl, rfl⟩ := Prod.mk.inj same
  rw [Nat.zero_add] at inside
  have found : job.rows[earlier.length]? = some row := by simp [rows]
  have sequence := paginates.sequence earlier.length row found
  obtain ⟨done, page, rest, part, parts, some_part, within, rfl⟩ :=
    exists_cut_of_flatMap (job.pageRecords row) inside filled
  have member : page ∈ pages earlier.length row := by simp [parts]
  obtain ⟨opened, last, records, _⟩ := exists_pageRecords row (sequence.sized page member)
  rw [records] at within
  rcases List.prefix_concat_iff.mp within with whole | open_part
  · refine ⟨earlier, row, later, done ++ [page], rest, [], rows, by simp [parts], ?_, by simp,
      by simp⟩
    rw [rowRecords_append, List.append_nil, whole, ← records]
    simp [recordsFrom, rowRecords]
  · refine ⟨earlier, row, later, done, page :: rest, part, rows, parts, ?_, ?_, ?_⟩
    · rw [List.append_assoc]
      rfl
    · intro record there
      obtain ⟨added, _, rfl⟩ := List.mem_map.mp (open_part.subset there)
      exact ⟨cell_value paginates.copied row (some "") added, cell_cursor row "" added⟩
    · exact fun nothing => absurd nothing some_part

variable {earlier later : List Row} {row : Row} (rows : job.rows = earlier ++ row :: later)
  {done rest : List Page} (parts : pages earlier.length row = done ++ rest)

include rows

/-- Other input rows belong to other batches. -/
theorem other_value {other : Row} (member : other ∈ earlier) :
    other.cell input ≠ row.cell input := by
  have distinct := paginates.distinct
  rw [rows, List.map_append, List.nodup_append] at distinct
  exact distinct.2.2 _ (List.mem_map_of_mem member) _ (by simp)

theorem other_value_of_record {record : Row} (member : record ∈ job.recordsFrom pages 0 earlier) :
    record.cell value ≠ row.cell input := by
  obtain ⟨⟨other, index⟩, there, inside⟩ := List.mem_flatMap.mp member
  have listed := List.mem_zipIdx_iff_getElem?.mp there
  have bound := (List.getElem?_eq_some_iff.mp listed).1
  have found : job.rows[index]? = some other := by
    rw [rows, List.getElem?_append_left bound]
    exact listed
  obtain ⟨_, _, _, same⟩ := paginates.fit_of_mem found inside
  rw [same]
  exact paginates.other_value rows (List.mem_of_getElem? listed)

include parts

/-- What a search from the end finds out about an input row: whether all its pages are there, and
the cursor of the last page that is. -/
theorem checkpoint_eq :
    checkpoint (job.columns value) job.options.endSymbol (row.cell input)
        (job.recordsFrom pages 0 earlier ++ job.rowRecords row done).getLast? =
      (rest.isEmpty, done.getLast?.bind Page.cursor) ∧
    ∀ record ∈ (job.recordsFrom pages 0 earlier ++ job.rowRecords row done).getLast?,
      record.cell value = row.cell input → record.cell job.plan.selected.length ≠ "" := by
  have sequence := paginates.sequence earlier.length row (by simp [rows])
  rw [parts] at sequence
  rcases List.eq_nil_or_concat done with rfl | ⟨init, page, rfl⟩
  · rw [rowRecords, List.flatMap_nil, List.append_nil]
    have some_rest : rest.isEmpty = false := by simpa using sequence.some_page
    have other (record : Row)
        (last : record ∈ (job.recordsFrom pages 0 earlier).getLast?) :
        record.cell value ≠ row.cell input :=
      paginates.other_value_of_record rows (List.mem_of_getLast? last)
    refine ⟨?_, fun record last same => absurd same (other record last)⟩
    rw [some_rest]
    cases last : (job.recordsFrom pages 0 earlier).getLast? with
    | none => rfl
    | some record =>
      have apart : record.cell (job.columns value).value ≠ row.cell input := other record last
      rw [checkpoint, if_pos apart]
      rfl
  · rw [List.concat_eq_append] at parts sequence ⊢
    have final : (init ++ [page]).getLast? = some page := List.getLast?_concat
    obtain ⟨added, last⟩ := getLast?_rowRecords row final
      (sequence.sized page (by simp)) (job.recordsFrom pages 0 earlier)
    rw [last, final]
    have value_eq (mark : String) :
        (job.record row (some mark) added).cell value = row.cell input :=
      cell_value paginates.copied row (some mark) added
    have cursor_eq (mark : String) :
        (job.record row (some mark) added).cell job.plan.selected.length = mark :=
      cell_cursor row mark added
    rw [checkpoint, if_neg (by simpa [columns] using value_eq _)]
    simp only [columns, cursor_eq, Option.mem_some_iff, forall_eq', Option.bind_some]
    cases rest with
    | nil =>
      have none_there := sequence.last page (by simp)
      rw [none_there]
      exact ⟨by simp, fun _ => paginates.symbol⟩
    | cons next others =>
      obtain ⟨cursor, same, nonempty, apart, _⟩ := sequence.earlier page (by simp)
      rw [same]
      exact ⟨by simp [apart], fun _ => nonempty⟩

end Paginates

/-- A resumer on the column that tells the batches apart. -/
def pagedResumer (job : Job) (key : ColumnKey) : BatchResumer :=
  { output := job.output, valueColumn := key }

namespace Paginates

variable (paginates : job.Paginates key value input pages) {work : Workspace}

include paginates

theorem legible {cut : List Row} (leading : cut <+: job.recordsFrom pages 0 job.rows) :
    Legible job.plan.outputLength (job.header ++ cut) := by
  obtain ⟨names, _, header⟩ := paginates.exists_header
  apply job.legible_append
  · intro record member
    exact (paginates.fit (leading.subset member)).1
  · intro headless
    rw [header] at headless
    cases headless

/-- The output of a job is opened from its end. -/
theorem openFilled {cut : List Row} (leading : cut <+: job.recordsFrom pages 0 job.rows)
    (held : work.file? job.path = some (job.text cut)) :
    ∃ reader, (job.context.backwardOptions job.defaults).openFilled job.path work =
        .ok (some reader) ∧
      reader.requiredColumn (.position value) = .ok value ∧
      reader.requiredColumn (.position job.plan.selected.length) = .ok job.plan.selected.length ∧
      reader.Rests job.context.dialect (job.text []).length cut := by
  obtain ⟨names, declared, header⟩ := paginates.exists_header
  have legible := job.legible_header
  rw [header] at legible
  have plain : (job.context.backwardOptions job.defaults).Plain job.context.dialect :=
    ⟨job.readsNuls, rfl, rfl, rfl⟩
  have headed : (job.context.backwardOptions job.defaults).noHeaders = false := by
    simp [OutputContext.backwardOptions, OutputContext.hasHeaders, context,
      EnrichOptions.outputContext, declared]
  rw [text, header] at held
  obtain ⟨reader, opened, known, rests⟩ := BackwardOptions.openPath_of_table plain job.apart
    legible.clear_first (fun row member => (paginates.fit (leading.subset member)).2.1.filled)
    job.plain held headed
  have length : names.length = job.plan.outputLength := job.suits.length_eq names declared
  have tracking : job.plan.trackingLength = 1 := by
    rw [EnrichPlan.trackingLength, job.tracking_eq, paginates.paged]
    rfl
  have inside : value < job.plan.selected.length :=
    (List.getElem?_eq_some_iff.mp paginates.copied).1
  have column (index : Nat) (bound : index ≤ job.plan.selected.length) :
      reader.requiredColumn (.position index) = .ok index := by
    have within : index < (Headers.ofNames names).length := by
      change index < names.length
      rw [length, EnrichPlan.outputLength, tracking]
      omega
    simp [BackwardReader.requiredColumn, BackwardReader.columnIndex, known, Headers.resolve, within,
      Outcome.mapError_ok]
  refine ⟨reader, ?_, column value (Nat.le_of_lt inside), column _ (Nat.le_refl _), ?_⟩
  · simp [BackwardOptions.openFilled, opened]
  · rw [text, header]
    exact rests

/-- A resumer that looks at the output looks for its last batch. -/
theorem inspect_eq {cut : List Row} (leading : cut <+: job.recordsFrom pages 0 job.rows)
    (held : work.file? job.path = some (job.text cut)) :
    ∃ reader : BackwardReader, reader.Rests job.context.dialect (job.text []).length cut ∧
      (job.pagedResumer key).inspect job.context job.defaults work =
        let resumer := { job.pagedResumer key with inputColumn := input }
        match reader.scanBatch (job.columns value) job.options.endSymbol none none with
        | .error error => (.error error, resumer)
        | .ok none => (.ok (), resumer)
        | .ok (some (batch, start)) =>
          (.ok (),
            { resumer with
              output := resumer.output.tellAll .outputRowRead batch.rows
              batch := some batch
              cutAt := start
              searching := true }) := by
  obtain ⟨names, _, header⟩ := paginates.exists_header
  obtain ⟨checked, _⟩ := job.reads_back (by simp [header]) (paginates.legible leading) held
  obtain ⟨reader, opened, valueColumn, cursorColumn, rests⟩ := paginates.openFilled leading held
  have inputColumn : job.context.inputColumn value = .ok input := by
    simp [OutputContext.inputColumn, context, EnrichOptions.outputContext, paginates.copied]
  have cursor : job.context.cursorColumn = some job.plan.selected.length := by
    simp [context, EnrichOptions.outputContext, job.tracking_eq, paginates.paged]
  have located : (job.context.backwardOptions job.defaults).locateLastBatch job.path
      (.position value) (.position job.plan.selected.length) job.context.endSymbol work =
        reader.scanBatch (job.columns value) job.options.endSymbol none none := by
    simp only [BackwardOptions.locateLastBatch, opened, Outcome.ok_bind, valueColumn, cursorColumn]
    rfl
  have here : (job.pagedResumer key).output.path = job.path := rfl
  have there : (job.pagedResumer key).valueColumn = key := rfl
  refine ⟨reader, rests, ?_⟩
  rcases scanned : reader.scanBatch (job.columns value) job.options.endSymbol none none with
    error | _ | ⟨batch, start⟩
  all_goals
    simp only [BatchResumer.inspect, here, there, checked, paginates.resolved, Outcome.ok_bind,
      inputColumn, pure, Except.pure, cursor, located, scanned]

/-- Behind a header row alone there is nothing to continue. -/
theorem inspect_of_header (held : work.file? job.path = some (job.text [])) :
    (job.pagedResumer key).inspect job.context job.defaults work =
      (.ok (), { job.pagedResumer key with inputColumn := input }) := by
  obtain ⟨reader, rests, inspected⟩ := paginates.inspect_eq List.nil_prefix held
  rw [inspected, BackwardReader.scanBatch_of_end rests.nextRecord_nil]
  rfl

variable {earlier later : List Row} {row : Row} (rows : job.rows = earlier ++ row :: later)
  {done rest : List Page} (parts : pages earlier.length row = done ++ rest)

include rows parts

/-- The last row in front of a cut belongs to the input row that was worked on. -/
theorem exists_last_record {opened : List Row}
    (same : ∀ record ∈ opened, record.Open (job.columns value) (row.cell input))
    (closed : opened = [] → done ≠ []) :
    ∃ final : Row, (job.recordsFrom pages 0 earlier ++ job.rowRecords row done ++
      opened).getLast? = some final ∧ final.cell value = row.cell input := by
  rcases List.eq_nil_or_concat opened with rfl | ⟨init, final, rfl⟩
  · obtain ⟨before, page, rfl⟩ := (List.eq_nil_or_concat done).resolve_left (closed rfl)
    have sequence := paginates.sequence earlier.length row (by simp [rows])
    rw [parts] at sequence
    rw [List.concat_eq_append] at sequence ⊢
    obtain ⟨added, ends⟩ := getLast?_rowRecords row
      (show (before ++ [page]).getLast? = some page from List.getLast?_concat)
      (sequence.sized page (by simp)) (job.recordsFrom pages 0 earlier)
    exact ⟨_, by rw [List.append_nil, ends], cell_value paginates.copied row _ added⟩
  · refine ⟨final, ?_, (same final (by simp)).value_eq⟩
    rw [List.concat_eq_append, ← List.append_assoc, List.getLast?_concat]

/-- Behind a cut the batch of the input row that was worked on is found. -/
theorem inspect_of_cut {opened : List Row}
    (leading : job.recordsFrom pages 0 earlier ++ job.rowRecords row done ++ opened <+:
      job.recordsFrom pages 0 job.rows)
    (same : ∀ record ∈ opened, record.Open (job.columns value) (row.cell input))
    (closed : opened = [] → done ≠ [])
    (held : work.file? job.path = some (job.text
      (job.recordsFrom pages 0 earlier ++ job.rowRecords row done ++ opened))) :
    ∃ folded output, output.path = job.path ∧
      (job.pagedResumer key).inspect job.context job.defaults work =
        (.ok (),
          { output := output
            valueColumn := key
            inputColumn := input
            batch := some {
              value := row.cell input
              finished := rest.isEmpty
              cursor := done.getLast?.bind Page.cursor
              rows := folded }
            cutAt := if opened = [] then none
              else some (job.text
                (job.recordsFrom pages 0 earlier ++ job.rowRecords row done)).length
            searching := true }) := by
  obtain ⟨reader, rests, inspected⟩ := paginates.inspect_eq leading held
  obtain ⟨reached, stopped⟩ := paginates.checkpoint_eq rows parts
  obtain ⟨final, ends, value_eq⟩ := paginates.exists_last_record rows parts same closed
  have some_record : job.recordsFrom pages 0 earlier ++ job.rowRecords row done ++ opened ≠ [] := by
    intro nothing
    rw [nothing] at ends
    cases ends
  have last : ∀ record ∈ (job.recordsFrom pages 0 earlier ++ job.rowRecords row done ++
      opened).getLast?, record.cell value = row.cell input := by
    intro record found
    rw [ends] at found
    cases found
    exact value_eq
  obtain ⟨folded, scanned, _⟩ := BackwardReader.scanBatch_of_table paginates.symbol rests
    some_record (fun record member => (paginates.fit (leading.subset member)).2.1)
    (fun record member => (paginates.fit (leading.subset member)).2.2) last same stopped
  have offset : (job.text []).length +
      (tableText job.context.dialect
        (job.recordsFrom pages 0 earlier ++ job.rowRecords row done)).length =
      (job.text (job.recordsFrom pages 0 earlier ++ job.rowRecords row done)).length := by
    rw [← List.length_append, ← job.text_append, List.nil_append]
  rw [reached, offset] at scanned
  rw [inspected, scanned]
  exact ⟨folded, _, ResumableOutput.path_tellAll _ _ _, rfl⟩

end Paginates

end Job

end ResumableCsv
