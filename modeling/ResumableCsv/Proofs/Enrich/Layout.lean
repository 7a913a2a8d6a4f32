import Mathlib.Data.List.Forall2
import ResumableCsv.Proofs.Enrich.Job
import ResumableCsv.Proofs.Writer.Records

/-!
How enriched outputs are laid out. A caller asks for rows, pages and several rows at once, and some
of what is asked for is refused. The output is the header row of the plan and behind it, in the order
of the calls, the rows that fit the plan, of each call those in front of the first that does not.
-/

namespace ResumableCsv

/-- An output row that is asked for: an input row, the cell that tells it apart, and what is added
to it. -/
structure Entry where
  row : Row
  mark : Option String
  added : Row

namespace EnrichPlan

/-- The columns to copy are there, and as many cells are added as were announced. -/
def Fits (plan : EnrichPlan) (entry : Entry) : Prop :=
  (∀ index ∈ plan.selected, index < entry.row.length) ∧ entry.added.length = plan.addedLength

instance (plan : EnrichPlan) : DecidablePred plan.Fits :=
  fun _ => inferInstanceAs (Decidable (_ ∧ _))

/-- The copied cells, the mark behind them, and the added cells at the end. -/
def cells (plan : EnrichPlan) (entry : Entry) : Row :=
  plan.selected.map entry.row.cell ++ entry.mark.toList ++ entry.added

/-- A mark is there where the output has a column for it. -/
def Marks (plan : EnrichPlan) (entry : Entry) : Prop :=
  entry.mark.toList.length = plan.trackingLength

theorem length_cells {plan : EnrichPlan} {entry : Entry} (marks : plan.Marks entry) :
    (plan.cells entry).length = plan.outputLength ↔ entry.added.length = plan.addedLength := by
  simp only [cells, outputLength, List.length_append, List.length_map,
    show entry.mark.toList.length = plan.trackingLength from marks]
  omega

theorem copied_of_outside {plan : EnrichPlan} {row : Row}
    (outside : ¬∀ index ∈ plan.selected, index < row.length) (rowLength : Nat) :
    plan.copied rowLength row = .error (.rowLengthMismatch rowLength row.length) := by
  have missing (indices : List Nat) (outside : ¬∀ index ∈ indices, index < row.length) :
      (indices.mapM fun index => row[index]?) = none := by
    induction indices with
    | nil => simp at outside
    | cons index rest ih =>
      rw [List.mapM_cons]
      by_cases inside : index < row.length
      · have later : ¬∀ other ∈ rest, other < row.length := by
          intro all
          exact outside (List.forall_mem_cons.mpr ⟨inside, all⟩)
        simp [ih later]
      · simp [inside]
  simp [copied, missing plan.selected outside]

end EnrichPlan

namespace Enricher

/-- What a caller may ask of an enricher. -/
inductive Call
  | row (index : Nat) (input added : Row)
  | padded (index : Nat) (input : Row)
  | each (index : Nat) (input : Row) (addenda : List Row)
  | page (input : Row) (addenda : List Row) (cursor : Option String)
  | next
  | flush

namespace Call

def run : Call → Enricher → Workspace → Except Error Unit × Enricher × Workspace
  | .row index input added, enricher, work => enricher.writeRow index input added work
  | .padded index input, enricher, work => enricher.writePadded index input work
  | .each index input addenda, enricher, work => enricher.writeEach index input addenda work
  | .page input addenda cursor, enricher, work => enricher.writePage input addenda cursor work
  | .next, enricher, work => (.ok (), (enricher.next work).2)
  | .flush, enricher, work => (.ok (), enricher.flush work)

/-- Pages are for outputs with a cursor column, single rows for the others. -/
def Suits (tracking : Tracking) : Call → Prop
  | .row .. | .padded .. | .each .. => tracking ≠ .paged
  | .page .. => tracking = .paged
  | .next | .flush => True

/-- The index of an input row as its mark. -/
def indexMark (plan : EnrichPlan) (index : Nat) : Option String :=
  if plan.tracking = .indexed then some (toString index) else none

/-- The rows of a page: the cursor stands in the last one. -/
def pageEntries (input : Row) (cursor : String) (addenda : List Row) : List Entry :=
  addenda.dropLast.map (fun added => ⟨input, some "", added⟩) ++
    addenda.getLast?.toList.map fun added => ⟨input, some cursor, added⟩

/-- The output rows that a call asks for. -/
def entries (plan : EnrichPlan) (endSymbol : String) : Call → List Entry
  | .row index input added => [⟨input, indexMark plan index, added⟩]
  | .padded index input => [⟨input, indexMark plan index, plan.padding⟩]
  | .each index input addenda => addenda.map fun added => ⟨input, indexMark plan index, added⟩
  | .page input addenda cursor =>
    pageEntries input (cursor.getD endSymbol) (if addenda = [] then [plan.padding] else addenda)
  | .next | .flush => []

/-- The output rows that a call brings about: those in front of the first that does not fit. -/
def written (plan : EnrichPlan) (endSymbol : String) (call : Call) : List Row :=
  ((call.entries plan endSymbol).takeWhile plan.Fits).map plan.cells

theorem marks_entries {plan : EnrichPlan} {call : Call} (suited : call.Suits plan.tracking)
    (endSymbol : String) : ∀ entry ∈ call.entries plan endSymbol, plan.Marks entry := by
  have indexed (index : Nat) (unpaged : plan.tracking ≠ .paged) :
      (indexMark plan index).toList.length = plan.trackingLength := by
    cases tracking : plan.tracking <;>
      simp_all [indexMark, EnrichPlan.trackingLength, Tracking.columnName?]
  cases call with
  | row index _ _ | padded index _ =>
    intro entry member
    rw [List.mem_singleton.mp member]
    exact indexed index suited
  | each index _ _ =>
    intro entry member
    obtain ⟨added, _, rfl⟩ := List.mem_map.mp member
    exact indexed index suited
  | page _ _ _ =>
    have paged : plan.tracking = .paged := suited
    intro entry member
    rcases List.mem_append.mp member with inner | last
    · obtain ⟨added, _, rfl⟩ := List.mem_map.mp inner
      simp [EnrichPlan.Marks, EnrichPlan.trackingLength, paged, Tracking.columnName?]
    · obtain ⟨added, _, rfl⟩ := List.mem_map.mp last
      simp [EnrichPlan.Marks, EnrichPlan.trackingLength, paged, Tracking.columnName?]
  | next | flush =>
    intro _ member
    cases member

end Call

/-- Writes output rows one by one, up to the first that is refused. -/
def emitAll (entries : List Entry) (enricher : Enricher) (work : Workspace) :
    Except Error Unit × Enricher × Workspace :=
  match entries with
  | [] => (.ok (), enricher, work)
  | entry :: rest =>
    match enricher.emit entry.row entry.mark entry.added work with
    | (.ok (), enricher, work) => emitAll rest enricher work
    | failed => failed

variable {enricher next : Enricher} {work rest : Workspace}

theorem plan_emit {row added : Row} {mark : Option String} {outcome : Except Error Unit}
    (step : enricher.emit row mark added work = (outcome, next, rest)) :
    next.plan = enricher.plan := by
  unfold emit at step
  split at step <;> cases step <;> rfl

theorem emitAll_cons_ok {entry : Entry} {entries : List Entry}
    (step : enricher.emit entry.row entry.mark entry.added work = (.ok (), next, rest)) :
    enricher.emitAll (entry :: entries) work = next.emitAll entries rest := by
  rw [emitAll, step]

theorem emitAll_cons_error {entry : Entry} {entries : List Entry} {error : Error}
    (step : enricher.emit entry.row entry.mark entry.added work = (.error error, next, rest)) :
    enricher.emitAll (entry :: entries) work = (.error error, next, rest) := by
  rw [emitAll, step]

theorem emitAll_singleton (entry : Entry) (enricher : Enricher) (work : Workspace) :
    enricher.emitAll [entry] work = enricher.emit entry.row entry.mark entry.added work := by
  rcases step : enricher.emit entry.row entry.mark entry.added work with ⟨_ | _, next, rest⟩
  · exact emitAll_cons_error step
  · exact emitAll_cons_ok step

theorem writeEach_eq (index : Nat) (row : Row) (addenda : List Row) (enricher : Enricher)
    (work : Workspace) :
    enricher.writeEach index row addenda work =
      enricher.emitAll
        (addenda.map fun added => ⟨row, Call.indexMark enricher.plan index, added⟩) work := by
  induction addenda generalizing enricher work with
  | nil => rfl
  | cons added addenda ih =>
    have mark : enricher.indexMark index = Call.indexMark enricher.plan index := rfl
    rw [List.map_cons, writeEach, writeRow, mark]
    rcases step : enricher.emit row (Call.indexMark enricher.plan index) added work with
      ⟨_ | _, next, rest⟩
    · exact (emitAll_cons_error step).symm
    · rw [emitAll_cons_ok step, ← plan_emit step]
      exact ih next rest

theorem emitPage_eq (row : Row) (cursor : String) (addenda : List Row) (enricher : Enricher)
    (work : Workspace) :
    enricher.emitPage row cursor addenda work =
      enricher.emitAll (Call.pageEntries row cursor addenda) work := by
  induction addenda generalizing enricher work with
  | nil => rfl
  | cons added addenda ih =>
    cases addenda with
    | nil => exact (emitAll_singleton ⟨row, some cursor, added⟩ enricher work).symm
    | cons second others =>
      have split : Call.pageEntries row cursor (added :: second :: others) =
          ⟨row, some "", added⟩ :: Call.pageEntries row cursor (second :: others) := by
        simp [Call.pageEntries]
      rw [split, emitPage]
      · rcases step : enricher.emit row (some "") added work with ⟨_ | _, next, rest⟩
        · exact (emitAll_cons_error step).symm
        · rw [emitAll_cons_ok step]
          exact ih next rest
      · exact fun single => nomatch single

/-- Every call that writes does so row by row. -/
theorem run_eq_emitAll (call : Call) (asks : call ≠ .next ∧ call ≠ .flush) (enricher : Enricher)
    (work : Workspace) :
    call.run enricher work =
      enricher.emitAll (call.entries enricher.plan enricher.endSymbol) work := by
  cases call with
  | row _ _ _ | padded _ _ =>
    rw [Call.entries, emitAll_singleton]
    rfl
  | each index input addenda => exact writeEach_eq index input addenda enricher work
  | page _ _ _ =>
    simp only [Call.run, writePage, Call.entries, emitPage_eq, List.isEmpty_iff]
  | next => exact absurd rfl asks.1
  | flush => exact absurd rfl asks.2

/-- An enricher that writes by a plan, with these records behind the `before` of its output. -/
structure Lays (plan : EnrichPlan) (endSymbol : String) (settings : Writer.Settings)
    (before : Bytes) (enricher : Enricher) (work : Workspace) (records : List Row) : Prop where
  plan_eq : enricher.plan = plan
  endSymbol_eq : enricher.endSymbol = endSymbol
  alone : enricher.resumer = none
  length_eq : enricher.writer.rowLength = some plan.outputLength
  settings_eq : enricher.writer.settings = settings
  carries : enricher.writer.Carries work before records

namespace Lays

variable {plan : EnrichPlan} {endSymbol : String} {settings : Writer.Settings} {before : Bytes}
  {records : List Row} (lays : Lays plan endSymbol settings before enricher work records)
  (kept : settings.nuls = .keep)

include lays kept

theorem nuls_eq : enricher.writer.nuls = .keep :=
  (congrArg Writer.Settings.nuls lays.settings_eq).trans kept

theorem accepts_iff {cells : Row} :
    enricher.writer.Accepts cells ↔ cells.length = plan.outputLength := by
  constructor
  · intro accepts
    exact accepts.fits _ lays.length_eq
  · intro length
    refine ⟨?_, by rw [lays.nuls_eq kept]; rfl⟩
    intro settled same
    rw [length]
    exact Option.some.inj (lays.length_eq.symm.trans same)

/-- An output row that fits is put behind the others. -/
theorem emit_ok {entry : Entry} (marks : plan.Marks entry) (fits : plan.Fits entry) :
    ∃ next rest, enricher.emit entry.row entry.mark entry.added work = (.ok (), next, rest) ∧
      Lays plan endSymbol settings before next rest (records ++ [plan.cells entry]) := by
  have accepts : enricher.writer.Accepts (plan.cells entry) :=
    (lays.accepts_iff kept).mpr ((EnrichPlan.length_cells marks).mpr fits.2)
  obtain ⟨writer, rest, written, length⟩ :=
    Writer.writeRow_of_accepts lays.length_eq accepts work
  obtain ⟨carries, same, _⟩ := lays.carries.writeRow_ok written
  rw [lays.nuls_eq kept] at carries
  have copied := EnrichPlan.copied_of_inside fits.1 enricher.reader.rowLength
  refine ⟨{ enricher with writer := writer }, rest, ?_, lays.plan_eq, lays.endSymbol_eq,
    lays.alone, length, same.trans lays.settings_eq, carries⟩
  rw [emit, lays.plan_eq, copied]
  simp only [EnrichPlan.cells] at written
  simp only [written]

/-- One that does not fit is refused and leaves the output alone. -/
theorem emit_error {entry : Entry} (marks : plan.Marks entry) (misfit : ¬plan.Fits entry) :
    ∃ error next, enricher.emit entry.row entry.mark entry.added work = (.error error, next, work) ∧
      Lays plan endSymbol settings before next work records := by
  by_cases inside : ∀ index ∈ plan.selected, index < entry.row.length
  · have refused : ¬enricher.writer.Accepts (plan.cells entry) := by
      rw [lays.accepts_iff kept, EnrichPlan.length_cells marks]
      exact fun length => misfit ⟨inside, length⟩
    obtain ⟨error, length, failed, settled⟩ := Writer.emit_of_not_accepts refused work
    have written : enricher.writer.writeRow (plan.cells entry) work =
        (.error error, { enricher.writer with rowLength := length }, work) := by
      rw [Writer.writeRow, failed]
    obtain ⟨_, carries, same, _⟩ := lays.carries.emit_error failed
    refine ⟨error, { enricher with writer := { enricher.writer with rowLength := length } }, ?_,
      lays.plan_eq, lays.endSymbol_eq, lays.alone, settled _ lays.length_eq,
      same.trans lays.settings_eq, carries⟩
    have copied := EnrichPlan.copied_of_inside inside enricher.reader.rowLength
    rw [emit, lays.plan_eq, copied]
    simp only [EnrichPlan.cells] at written
    simp only [written]
  · have copied := EnrichPlan.copied_of_outside inside enricher.reader.rowLength
    refine ⟨.rowLengthMismatch enricher.reader.rowLength entry.row.length, enricher, ?_, lays⟩
    rw [emit, lays.plan_eq, copied]

/-- Of several output rows those in front of the first that does not fit are written, and only when
there is no such row all is well. -/
theorem emitAll {entries : List Entry} (marks : ∀ entry ∈ entries, plan.Marks entry) :
    ∃ outcome next rest, enricher.emitAll entries work = (outcome, next, rest) ∧
      (outcome = .ok () ↔ ∀ entry ∈ entries, plan.Fits entry) ∧
      Lays plan endSymbol settings before next rest
        (records ++ (entries.takeWhile plan.Fits).map plan.cells) := by
  induction entries generalizing enricher work records with
  | nil => exact ⟨.ok (), enricher, work, rfl, by simp, by simpa using lays⟩
  | cons entry entries ih =>
    obtain ⟨here, later⟩ := List.forall_mem_cons.mp marks
    by_cases fits : plan.Fits entry
    · obtain ⟨next, rest, step, laid⟩ := lays.emit_ok kept here fits
      obtain ⟨outcome, last, left, ran, verdict, all⟩ := ih laid later
      refine ⟨outcome, last, left, (emitAll_cons_ok step).trans ran, ?_, ?_⟩
      · rw [verdict, List.forall_mem_cons]
        exact ⟨fun others => ⟨fits, others⟩, fun both => both.2⟩
      · simpa [fits, List.append_assoc] using all
    · obtain ⟨error, next, step, laid⟩ := lays.emit_error kept here fits
      refine ⟨.error error, next, work, emitAll_cons_error step, ?_, ?_⟩
      · simp [fits]
      · simpa [fits] using laid

omit kept in
/-- Asking for the next row leaves what was written alone. -/
theorem advance : Lays plan endSymbol settings before (enricher.next work).2.1
    (enricher.next work).2.2 records := by
  fun_induction Enricher.next enricher work with
  | case1 enricher work reader step =>
    exact ⟨lays.plan_eq, lays.endSymbol_eq, lays.alone, lays.length_eq, lays.settings_eq,
      lays.carries⟩
  | case2 enricher work error reader step =>
    exact ⟨lays.plan_eq, lays.endSymbol_eq, lays.alone, lays.length_eq, lays.settings_eq,
      lays.carries⟩
  | case3 enricher work row reader step index advanced error resumer rest refused =>
    rw [lays.alone] at refused
    cases refused
  | case4 enricher work row reader step index advanced resume resumer rest offered =>
    rw [lays.alone] at offered
    cases offered
    exact ⟨lays.plan_eq, lays.endSymbol_eq, rfl, lays.length_eq, lays.settings_eq, lays.carries⟩
  | case5 enricher work row reader step index advanced resumer rest skipped ih =>
    rw [lays.alone] at skipped
    cases skipped

omit kept in
theorem flush : Lays plan endSymbol settings before (enricher.flush work).1
    (enricher.flush work).2 records := by
  obtain ⟨carries, same⟩ := lays.carries.flush
  exact ⟨lays.plan_eq, lays.endSymbol_eq, lays.alone, lays.length_eq,
    same.trans lays.settings_eq, carries⟩

/-- A call puts the rows it brings about behind the others; it goes through when all that it asks
for fits. -/
theorem run {call : Call} (suited : call.Suits plan.tracking) :
    ∃ outcome next rest, call.run enricher work = (outcome, next, rest) ∧
      (outcome = .ok () ↔ ∀ entry ∈ call.entries plan endSymbol, plan.Fits entry) ∧
      Lays plan endSymbol settings before next rest (records ++ call.written plan endSymbol) := by
  by_cases asks : call ≠ .next ∧ call ≠ .flush
  · rw [run_eq_emitAll call asks, lays.plan_eq, lays.endSymbol_eq]
    exact lays.emitAll kept (Call.marks_entries suited endSymbol)
  · cases call with
    | row | padded | each | page => exact absurd ⟨by simp, by simp⟩ asks
    | next =>
      refine ⟨.ok (), (enricher.next work).2.1, (enricher.next work).2.2, rfl,
        by simp [Call.entries], ?_⟩
      rw [show Call.next.written plan endSymbol = [] from rfl, List.append_nil]
      exact lays.advance
    | flush =>
      refine ⟨.ok (), (enricher.flush work).1, (enricher.flush work).2, rfl,
        by simp [Call.entries], ?_⟩
      rw [show Call.flush.written plan endSymbol = [] from rfl, List.append_nil]
      exact lays.flush

end Lays

/-- Makes some calls one after the other, also behind those that fail. -/
def calls (asked : List Call) (enricher : Enricher) (work : Workspace) :
    List (Except Error Unit) × Enricher × Workspace :=
  match asked with
  | [] => ([], enricher, work)
  | call :: asked =>
    let (outcome, enricher, work) := call.run enricher work
    let (outcomes, last) := calls asked enricher work
    (outcome :: outcomes, last)

theorem Lays.calls {plan : EnrichPlan} {endSymbol : String} {settings : Writer.Settings}
    {before : Bytes} {records : List Row}
    (lays : Lays plan endSymbol settings before enricher work records)
    (kept : settings.nuls = .keep) {asked : List Call}
    (suited : ∀ call ∈ asked, call.Suits plan.tracking) :
    ∃ outcomes last left, enricher.calls asked work = (outcomes, last, left) ∧
      asked.Forall₂ (fun call outcome =>
        outcome = .ok () ↔ ∀ entry ∈ call.entries plan endSymbol, plan.Fits entry) outcomes ∧
      Lays plan endSymbol settings before last left
        (records ++ asked.flatMap (Call.written plan endSymbol)) := by
  induction asked generalizing enricher work records with
  | nil => exact ⟨[], enricher, work, rfl, .nil, by simpa using lays⟩
  | cons call asked ih =>
    obtain ⟨here, later⟩ := List.forall_mem_cons.mp suited
    obtain ⟨outcome, next, rest, step, verdict, laid⟩ := lays.run kept here
    obtain ⟨outcomes, last, left, ran, verdicts, all⟩ := ih laid later
    refine ⟨outcome :: outcomes, last, left, ?_, .cons verdict verdicts, ?_⟩
    · rw [Enricher.calls, step]
      simp only [ran]
    · rwa [List.flatMap_cons, ← List.append_assoc]

end Enricher

/-- A writer that keeps NULs can be made, and writes its header. -/
theorem WriterOptions.exists_build {options : WriterOptions} (kept : options.nuls = .keep)
    {fieldnames : Option (List String)} {length : Nat}
    (shape : options.shape = .ok (fieldnames, some length))
    (even : ∀ names ∈ fieldnames, names.length = length) (sink : Sink) (withHeader : Bool)
    (work : Workspace) :
    ∃ writer opened, options.build sink withHeader work = .ok (writer, opened) := by
  cases fieldnames with
  | none => exact ⟨_, _, build_of_unheaded shape (by simp)⟩
  | some names =>
    cases withHeader with
    | false => exact ⟨_, _, build_of_unheaded shape rfl⟩
    | true =>
      have accepts : (options.start sink (some names) (some length)).Accepts names := by
        refine ⟨?_, ?_⟩
        · rintro settled ⟨⟩
          exact even names rfl
        · change options.nuls.apply names = .ok (options.nuls.stored names)
          rw [kept]
          rfl
      rw [build_of_headed shape rfl, Writer.writeHeader]
      simp only [start] at accepts ⊢
      rw [Writer.emit_of_accepts accepts]
      exact ⟨_, _, rfl⟩

open Enricher in
/-- Every plan can be set to work on any sink, which receives the header row of the plan. -/
theorem EnrichOptions.openSink_of_plan {options : EnrichOptions} {tracking : Tracking}
    {reader : Reader} (even : reader.Even) {plan : EnrichPlan}
    (planned : options.plan tracking reader = .ok plan) {defaults : Defaults}
    (kept : options.nuls.getD defaults.writeNuls = .keep) {sink : Sink} {work : Workspace}
    (ready : sink.Ready work) :
    ∃ enricher opened, options.openSink tracking reader sink defaults work =
        .ok (enricher, opened) ∧
      Lays plan options.endSymbol enricher.writer.settings (sink.text work) enricher opened
        plan.fieldnames.toList ∧
      enricher.writer.nuls = .keep ∧
      enricher.writer.dialect = ⟨options.outputDelimiter reader, 0x22⟩ ∧
      enricher.writer.output.sink.emptied = sink.emptied := by
  have suits := (suits_of_plan even planned).2
  have shape := suits.shape_eq options defaults
  obtain ⟨writer, opened, built⟩ :=
    WriterOptions.exists_build kept shape suits.length_eq sink true work
  obtain ⟨carries, dialect, nuls, emptied, _, length, same, settled⟩ :=
    WriterOptions.carries_of_build ready built
  rw [shape] at same
  obtain ⟨names, rfl⟩ := Prod.mk.inj (Except.ok.inj same)
  have records : ((if true then writer.fieldnames.toList else []).map
      (options.writerOptions plan reader defaults).nuls.stored) = plan.fieldnames.toList := by
    have whole : (options.writerOptions plan reader defaults).nuls = .keep := kept
    rw [whole, if_pos rfl, ← names]
    exact List.map_id _
  rw [records] at carries
  refine ⟨{ reader, writer, plan, endSymbol := options.endSymbol }, opened, ?_,
    ⟨rfl, rfl, rfl, settled _ rfl, rfl, carries⟩, nuls.trans kept, dialect, emptied⟩
  rw [openSink, planned]
  have started : (options.writerOptions plan reader defaults).openSink sink work =
      .ok (writer, opened) := built
  simp only [Outcome.ok_bind, started]
  rfl

namespace Enricher

/-- Whatever is asked of an enricher on a sink that holds nothing yet, a call goes through when all
the output rows it asks for fit the plan, and a reader of the sink is given the header row of the
plan and behind it the rows that the calls brought about: of each call those in front of the first
that does not fit. -/
theorem calls_lay_out {options : EnrichOptions} {tracking : Tracking} {reader : Reader}
    (made : ∃ reading source delimiter, Reader.build reading source delimiter = .ok reader)
    {plan : EnrichPlan} (planned : options.plan tracking reader = .ok plan)
    {defaults : Defaults} (kept : options.nuls.getD defaults.writeNuls = .keep)
    (apart : Dialect.Proper ⟨options.outputDelimiter reader, 0x22⟩)
    (wide : 0 < plan.outputLength) {sink : Sink} {work : Workspace} (ready : sink.Ready work)
    (named : sink.Named) (vacant : sink.text work = []) {asked : List Call}
    (suited : ∀ call ∈ asked, call.Suits tracking) :
    (options.selected reader = .ok plan.selected ∧
      ∃ added, options.addedNames reader.headers.isSome = .ok (added, plan.addedLength) ∧
        plan.fieldnames = reader.headers.map fun headers =>
          plan.selected.map (Row.cell headers.fieldnames) ++ tracking.columnName?.toList ++
            added) ∧
    ∃ enricher opened, options.openSink tracking reader sink defaults work =
        .ok (enricher, opened) ∧
      ∃ outcomes last left, enricher.calls asked opened = (outcomes, last, left) ∧
        asked.Forall₂ (fun call outcome => outcome = .ok () ↔
          ∀ entry ∈ call.entries plan options.endSymbol, plan.Fits entry) outcomes ∧
        let written := asked.flatMap (Call.written plan options.endSymbol)
        let records := plan.fieldnames.toList ++ written
        ∃ bytes, (last.close left).1.input (last.close left).2 = .ok ⟨bytes, none⟩ ∧
          (records = [] → bytes = []) ∧
          (records ≠ [] → (∀ row ∈ records.head?, ∀ cell ∈ row.head?, ¬Text.StartsWithMark cell) →
            ∀ reading : ReaderOptions, reading.Plain ⟨options.outputDelimiter reader, 0x22⟩ →
              reading.noHeaders = !reader.headers.isSome →
                ∃ back, reading.openBytes bytes = .ok back ∧
                  back.fieldnames = plan.fieldnames ∧ back.rows = written.map .ok) := by
  obtain ⟨reading, source, delimiter, built⟩ := made
  have even := Reader.even_of_build built
  obtain ⟨same, layout⟩ := EnrichOptions.layout_of_plan even planned
  obtain ⟨enricher, opened, started, lays, nuls, dialect, emptied⟩ :=
    EnrichOptions.openSink_of_plan even planned kept ready
  rw [vacant] at lays
  rw [← same] at suited
  obtain ⟨outcomes, last, left, ran, verdicts, laid⟩ := lays.calls nuls suited
  refine ⟨layout, enricher, opened, started, outcomes, last, left, ran, verdicts, ?_⟩
  intro written records
  have lastDialect : last.writer.dialect = ⟨options.outputDelimiter reader, 0x22⟩ :=
    (congrArg Writer.Settings.dialect laid.settings_eq).trans dialect
  have lastSink : last.writer.output.sink.emptied = sink.emptied :=
    (congrArg Writer.Settings.sink laid.settings_eq).trans emptied
  have given : (last.close left).1.input (last.close left).2 =
      .ok ⟨tableText ⟨options.outputDelimiter reader, 0x22⟩ records, none⟩ := by
    have place : last.writer.output.sink.Named := by
      rwa [← Sink.named_emptied, lastSink, Sink.named_emptied]
    rw [← lastDialect, ← List.nil_append (tableText _ records), ← laid.carries.text_eq]
    exact Output.input_close laid.carries.ready place
  refine ⟨_, given, fun nothing => by rw [nothing]; rfl, ?_⟩
  intro some_record unmarked back plain flag
  have legible : Legible plan.outputLength records := by
    refine ⟨wide, fun row member => ?_, unmarked⟩
    exact Option.some.inj ((laid.carries.even row member).symm.trans laid.length_eq)
  have headed := (EnrichOptions.suits_of_plan even planned).2.headed
  obtain ⟨first, others, table⟩ := List.exists_cons_of_ne_nil some_record
  rw [table] at legible ⊢
  obtain ⟨found, read, shows⟩ := ReaderOptions.openBytes_of_table plain apart legible
  refine ⟨found, read, ?_, ?_⟩
  · rw [Reader.fieldnames, shows.headers_eq, flag, ← headed]
    cases declared : plan.fieldnames with
    | none => rfl
    | some names =>
      simp only [records, declared, Option.toList_some, List.singleton_append] at table
      obtain ⟨rfl, _⟩ := List.cons.inj table
      rfl
  · rw [shows.rows_eq, ReaderOptions.dataRows, flag, ← headed]
    cases declared : plan.fieldnames with
    | none =>
      simp only [records, declared, Option.toList_none, List.nil_append] at table
      rw [table]
      rfl
    | some names =>
      simp only [records, declared, Option.toList_some, List.singleton_append] at table
      obtain ⟨_, rfl⟩ := List.cons.inj table
      rfl

/-- A reader that has learnt the header row and the first of two rows. -/
def layoutReader : Reader :=
  { source := .listed [["bob"]], headers := some (.ofNames ["name"]), rowLength := 1,
    delimiter := 0x2C, buffer := [["ann"]] }

def layoutOptions : EnrichOptions := { added := .named ["note"] }

def layoutPlan : EnrichPlan :=
  { tracking := .paged, selected := [0], addedLength := 1,
    fieldnames := some ["name", "cursor", "note"] }

/-- A page that is given up at its second row, a page that ends the work on a row, and one for a row
without the column to copy. -/
def layoutCalls : List Call :=
  [.page ["ann"] [["x"], ["y", "z"], ["w"]] (some "p1"), .page ["bob"] [] none,
    .page [] [["v"]] none]

theorem calls_lay_out_sample :
    layoutOptions.plan .paged layoutReader = .ok layoutPlan ∧
    ∃ enricher opened, layoutOptions.openSink .paged layoutReader (.memory []) {} {} =
        .ok (enricher, opened) ∧
      ∃ outcomes last left, enricher.calls layoutCalls opened = (outcomes, last, left) ∧
        ∃ bytes, (last.close left).1.input (last.close left).2 = .ok ⟨bytes, none⟩ ∧
          ∃ back, ({ delimiter := some 0x2C } : ReaderOptions).openBytes bytes = .ok back ∧
            back.fieldnames = some ["name", "cursor", "note"] ∧
            back.rows = [.ok ["ann", "", "x"], .ok ["bob", "end", ""]] := by
  have planned : layoutOptions.plan .paged layoutReader = .ok layoutPlan := rfl
  have suited : ∀ call ∈ layoutCalls, call.Suits .paged := by simp [layoutCalls, Call.Suits]
  have apart : Dialect.Proper ⟨layoutOptions.outputDelimiter layoutReader, 0x22⟩ :=
    ⟨by decide, by decide, by decide⟩
  have written : layoutCalls.flatMap (Call.written layoutPlan layoutOptions.endSymbol) =
      [["ann", "", "x"], ["bob", "end", ""]] := by decide
  obtain ⟨_, enricher, opened, started, outcomes, last, left, ran, _, bytes, given, _, reads⟩ :=
    calls_lay_out ⟨{}, .listed [["name"], ["ann"], ["bob"]], 0x2C, rfl⟩ planned
      (show layoutOptions.nuls.getD ({} : Defaults).writeNuls = .keep from rfl) apart (by decide)
      (show (Sink.memory []).Ready {} from trivial) (show (Sink.memory []).Named from trivial) rfl
      suited
  rw [written] at reads
  obtain ⟨back, read, names, rows⟩ := reads (by simp [layoutPlan])
    (by simp [layoutPlan, Text.StartsWithMark]) { delimiter := some 0x2C } ⟨rfl, rfl, rfl, rfl, rfl⟩
    rfl
  exact ⟨planned, enricher, opened, started, outcomes, last, left, ran, bytes, given, back, read,
    names, rows⟩

end Enricher

end ResumableCsv
