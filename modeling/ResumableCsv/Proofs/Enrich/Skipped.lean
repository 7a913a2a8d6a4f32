import ResumableCsv.Proofs.Enrich.Layout
import ResumableCsv.Proofs.Enrich.Offers
import ResumableCsv.Proofs.Enrich.Refused
import ResumableCsv.Proofs.Resume.Found

/-!
Runs that skip as many input rows as the output holds. The input may have more rows than that, just
as many, or fewer, which is objected to once; whatever is asked for in between and behind the end,
every row of the output is told while it is read, and every input row while it is skipped.
-/

namespace ResumableCsv

namespace Enricher

/-- What the listener of the resumer has been told so far. -/
def heard (enricher : Enricher) : List (ResumeEvent × Row) :=
  (enricher.resumer.map fun resumer => resumer.output.heard).getD []

/-- What calls for the next row are answered with while these rows are left: those from number
`count` on, and then, for the first time, an objection when there are not so many. -/
def due (enricher : Enricher) (count : Nat) (left : List Row) : List (Except Error Offer) :=
  let total := enricher.nextIndex + left.length
  (offers (fun position => position < count) enricher.nextIndex left).map .ok ++
    if enricher.finished ∨ count ≤ total then []
    else [.error (.resume (.inputTooShort count total))]

/-- What is told about the rows left once the next is asked for. -/
def passing (enricher : Enricher) (count : Nat) (left : List Row) : List (ResumeEvent × Row) :=
  (left.take (count - enricher.nextIndex)).map fun row => (.inputRowSkipped, row)

/-- An enricher that skips rows by their number: the rows left, and what it has told so far. -/
structure Counting (enricher : Enricher) (count : Nat) (left : List Row)
    (told : List (ResumeEvent × Row)) : Prop where
  rows_eq : enricher.reader.rows = left.map .ok
  counts : ∃ resumer, enricher.resumer = some (.rowCount resumer) ∧ resumer.rowCount = count ∧
    resumer.skipped = min enricher.nextIndex count ∧ resumer.output.heard = told

variable {enricher later : Enricher} {count : Nat} {row : Row} {left : List Row}
  {told : List (ResumeEvent × Row)}

theorem Counting.heard_eq (counting : enricher.Counting count left told) :
    enricher.heard = told := by
  obtain ⟨resumer, held, _, _, same⟩ := counting.counts
  rw [heard, held]
  exact same

/-- The objection at the end is the one that is due. -/
theorem Counting.objection_eq (counting : enricher.Counting count [] told) :
    enricher.objection = (enricher.due count []).head? := by
  obtain ⟨resumer, held, counted, skipped, _⟩ := counting.counts
  simp only [objection, due, held, Option.map_some, Resumer.finish, RowCountResumer.finish,
    offers, List.map_nil, List.nil_append, List.length_nil, Nat.add_zero]
  cases done : enricher.finished with
  | true => rfl
  | false =>
    by_cases enough : count ≤ enricher.nextIndex
    · have all : ¬resumer.skipped < resumer.rowCount := by omega
      simp [all, enough]
    · have short : enricher.nextIndex < count := by omega
      have reached : resumer.skipped = enricher.nextIndex := by omega
      simp [short, enough, reached, counted]

/-- A row that is written already is passed over, and that is told. -/
theorem Counting.skip (counting : enricher.Counting count (row :: left) told)
    (behind : enricher.nextIndex < count) (work : Workspace) :
    ∃ later : Enricher, enricher.next work = later.next work ∧
      later.nextIndex = enricher.nextIndex + 1 ∧ later.finished = enricher.finished ∧
      later.Counting count left (told ++ [(.inputRowSkipped, row)]) := by
  obtain ⟨rest, step, after⟩ := Reader.next_of_rows_cons counting.rows_eq
  obtain ⟨resumer, held, counted, skipped, same⟩ := counting.counts
  have some_left : ¬resumer.rowCount ≤ resumer.skipped := by omega
  refine ⟨{ enricher with
      reader := rest
      nextIndex := enricher.nextIndex + 1
      resumer := some (.rowCount
        { resumer with
          skipped := resumer.skipped + 1
          output := resumer.output.tell .inputRowSkipped row }) },
    ?_, rfl, rfl, after, _, rfl, counted, ?_, ?_⟩
  · rw [next_of_row step, held]
    simp only [Enricher.decide, Resumer.filter, RowCountResumer.filter, some_left, if_false,
      Resumer.verdict, if_true]
  · simp only
    omega
  · rw [ResumableOutput.heard_tell, same]

/-- A row that is not written yet is offered. -/
theorem Counting.offer (counting : enricher.Counting count (row :: left) told)
    (reached : count ≤ enricher.nextIndex) (work : Workspace) :
    ∃ later : Enricher,
      enricher.next work = (some (.ok ⟨enricher.nextIndex, row, none⟩), later, work) ∧
      later.nextIndex = enricher.nextIndex + 1 ∧ later.finished = enricher.finished ∧
      later.Counting count left told := by
  obtain ⟨rest, step, after⟩ := Reader.next_of_rows_cons counting.rows_eq
  obtain ⟨resumer, held, counted, skipped, same⟩ := counting.counts
  have all : resumer.rowCount ≤ resumer.skipped := by omega
  refine ⟨{ enricher with
      reader := rest
      nextIndex := enricher.nextIndex + 1
      resumer := some (.rowCount resumer) },
    ?_, rfl, rfl, after, resumer, rfl, counted, ?_, same⟩
  · rw [next_of_row step, held]
    simp only [Enricher.decide, Resumer.filter, RowCountResumer.filter, all, if_true,
      Resumer.verdict, Bool.false_eq_true, if_false]
  · simp only
    omega

section

variable (advanced : later.nextIndex = enricher.nextIndex + 1)

include advanced

theorem due_of_skip (same : later.finished = enricher.finished)
    (behind : enricher.nextIndex < count) :
    enricher.due count (row :: left) = later.due count left := by
  have total : enricher.nextIndex + (row :: left).length = later.nextIndex + left.length := by
    rw [advanced, List.length_cons]
    omega
  simp only [due, total, same, offers, behind, decide_true, if_true, advanced]

theorem due_of_offer (same : later.finished = enricher.finished)
    (reached : count ≤ enricher.nextIndex) :
    enricher.due count (row :: left) =
      .ok ⟨enricher.nextIndex, row, none⟩ :: later.due count left := by
  have total : enricher.nextIndex + (row :: left).length = later.nextIndex + left.length := by
    rw [advanced, List.length_cons]
    omega
  have ahead : ¬enricher.nextIndex < count := by omega
  simp only [due, total, same, offers, ahead, decide_false, Bool.false_eq_true, if_false, advanced,
    List.map_cons, List.cons_append]

theorem passing_of_skip (behind : enricher.nextIndex < count) :
    enricher.passing count (row :: left) =
      (.inputRowSkipped, row) :: later.passing count left := by
  have one_more : count - enricher.nextIndex = count - later.nextIndex + 1 := by omega
  rw [passing, passing, one_more, List.take_succ_cons, List.map_cons]

end

theorem passing_of_reached (reached : count ≤ enricher.nextIndex) :
    enricher.passing count left = [] := by
  rw [passing, Nat.sub_eq_zero_of_le reached, List.take_zero, List.map_nil]

/-- A call for the next row is answered with what is due first; all rows to be skipped are behind it
then, and that was told. -/
theorem Counting.next (counting : enricher.Counting count left told) (work : Workspace) :
    ∃ (later : Enricher) (others : List Row),
      enricher.next work = ((enricher.due count left).head?, later, work) ∧
      later.due count others = (enricher.due count left).tail ∧
      later.passing count others = [] ∧
      later.Counting count others (told ++ enricher.passing count left) := by
  -- One call may pass over many rows; what is due and what is told follow it row by row.
  induction left generalizing enricher told with
  | nil =>
    have ended := Reader.next_of_rows_nil counting.rows_eq
    have after := Reader.rows_after_end ended
    rcases step : enricher.reader.next with ⟨none | item, rest⟩
    · rw [step] at after
      refine ⟨{ enricher with reader := rest, finished := true }, [], ?_, ?_, ?_, after, ?_⟩
      · rw [next_of_end step, counting.objection_eq]
      · have once : (enricher.due count []).tail = [] := by
          simp only [due, offers, List.map_nil, List.nil_append]
          split <;> rfl
        rw [once]
        simp [due, offers]
      · simp [passing]
      · simpa [passing] using counting.counts
    · rw [step] at ended
      cases ended
  | cons row left ih =>
    by_cases behind : enricher.nextIndex < count
    · obtain ⟨advanced, step, index, same, skipping⟩ := counting.skip behind work
      obtain ⟨later, others, answered, rest, none_left, counted⟩ := ih skipping
      rw [due_of_skip index same behind, passing_of_skip index behind]
      refine ⟨later, others, step.trans answered, rest, none_left, ?_⟩
      rwa [List.append_assoc] at counted
    · have reached : count ≤ enricher.nextIndex := by omega
      obtain ⟨later, step, index, same, offering⟩ := counting.offer reached work
      rw [due_of_offer index same reached, passing_of_reached reached, List.append_nil]
      exact ⟨later, left, step, rfl, passing_of_reached (by omega), offering⟩

/-- Whatever is written, the input and the resumer are left alone. -/
theorem emitAll_keeps (entries : List Entry) (enricher : Enricher) (work : Workspace) :
    ∃ writer, (enricher.emitAll entries work).2.1 = { enricher with writer := writer } := by
  induction entries generalizing enricher work with
  | nil => exact ⟨_, rfl⟩
  | cons entry entries ih =>
    have kept : ∃ writer, (enricher.emit entry.row entry.mark entry.added work).2.1 =
        { enricher with writer := writer } := by
      unfold emit
      split <;> exact ⟨_, rfl⟩
    rcases step : enricher.emit entry.row entry.mark entry.added work with ⟨_ | _, next, rest⟩
    · rw [step] at kept
      rwa [emitAll_cons_error step]
    · rw [step] at kept
      obtain ⟨writer, rfl⟩ := kept
      rw [emitAll_cons_ok step]
      exact ih _ rest

/-- Whether a call asks for the next row. -/
def Call.asks : Call → Bool
  | .next => true
  | _ => false

theorem Call.run_keeps {call : Call} (quiet : call.asks = false) (enricher : Enricher)
    (work : Workspace) :
    ∃ writer, (call.run enricher work).2.1 = { enricher with writer := writer } := by
  by_cases writes : call ≠ .next ∧ call ≠ .flush
  · rw [run_eq_emitAll call writes]
    exact emitAll_keeps _ enricher work
  · cases call with
    | row | padded | each | page => exact absurd ⟨by simp, by simp⟩ writes
    | next => cases quiet
    | flush => exact ⟨_, rfl⟩

/-- The answers to the calls for the next row, made among others. -/
def answers (asked : List Call) (enricher : Enricher) (work : Workspace) :
    List (Option (Except Error Offer)) :=
  match asked with
  | [] => []
  | call :: asked =>
    let (_, later, rest) := call.run enricher work
    let others := answers asked later rest
    if call.asks then (enricher.next work).1 :: others else others

/-- Calls for the next row take what is due one by one, and nothing for ever after; all that is told
is told at the first of them. -/
theorem Counting.calls (counting : enricher.Counting count left told) (asked : List Call)
    (work : Workspace) :
    let times := asked.countP Call.asks
    enricher.answers asked work = (List.range times).map ((enricher.due count left)[·]?) ∧
      (enricher.calls asked work).2.1.heard =
        told ++ if times = 0 then [] else enricher.passing count left := by
  induction asked generalizing enricher left told work with
  | nil => exact ⟨rfl, by simpa [Enricher.calls] using counting.heard_eq⟩
  | cons call asked ih =>
    cases asks : call.asks with
    | true =>
      obtain rfl : call = .next := by cases call <;> first | rfl | cases asks
      obtain ⟨later, others, answered, rest, none_left, counted⟩ := counting.next work
      obtain ⟨answers, heard⟩ := ih counted work
      have ran : Call.next.run enricher work = (.ok (), later, work) := by
        rw [Call.run, answered]
      simp only [Enricher.answers, Enricher.calls, ran, answered, answers, heard, rest, none_left,
        asks, if_true, List.countP_cons_of_pos, ite_self, List.append_nil, Nat.succ_ne_zero,
        if_false, and_true]
      rw [List.range_succ_eq_map, List.map_cons, List.map_map, List.head?_eq_getElem?]
      simp only [Function.comp_def, List.getElem?_tail]
    | false =>
      obtain ⟨writer, same⟩ := call.run_keeps asks enricher work
      rcases ran : call.run enricher work with ⟨outcome, next, rest⟩
      rw [ran] at same
      subst same
      have still : Counting { enricher with writer := writer } count left told :=
        ⟨counting.rows_eq, counting.counts⟩
      simp only [Enricher.answers, Enricher.calls, ran, asks, Bool.false_eq_true, if_false,
        not_false_eq_true, List.countP_cons_of_neg]
      exact ih still rest

end Enricher

namespace EnrichOptions

variable {options : EnrichOptions} {tracking : Tracking} {reader : Reader} {defaults : Defaults}
  {work : Workspace} {plan : EnrichPlan} {resumer : RowCountResumer} {input written : List Row}

/-- Opening tells the rows of the output one by one, and as many input rows are to be skipped. -/
theorem openResumed_of_found (planned : options.plan tracking reader = .ok plan)
    (reads : reader.rows = input.map .ok) (resuming : resumer.output.canResume work = true)
    (finds : (options.outputContext plan reader).Finds resumer.output.path defaults work written) :
    ∃ enricher ready, options.openResumed tracking reader (.rowCount resumer) defaults work =
        (.ok enricher, ready) ∧
      enricher.nextIndex = 0 ∧ enricher.finished = false ∧
      enricher.Counting written.length input
        (resumer.output.heard ++ written.map fun row => (.outputRowRead, row)) := by
  obtain ⟨content, held, filled⟩ := ResumableOutput.exists_content_of_canResume resuming
  obtain ⟨fieldnames, length, shape⟩ := options.exists_shape plan reader defaults
  let looked : RowCountResumer :=
    { output := resumer.output.tellAll .outputRowRead written, rowCount := written.length }
  have inspected : Resumer.inspect (options.outputContext plan reader) defaults work
      (.rowCount resumer) = (.ok (), .rowCount looked) := by
    rw [Resumer.inspect, finds.inspect_eq]
  have still : (Resumer.rowCount looked).output.path = (Resumer.rowCount resumer).output.path :=
    ResumableOutput.path_tellAll _ _ _
  have opened := openResumed_behind (by exact held) planned shape filled still inspected
  exact ⟨_, _, opened, rfl, rfl, reads, _, rfl, rfl, (Nat.zero_min _).symm,
    ResumableOutput.heard_tellAll _ _ _⟩

/-- Skipping by number skips the rows that are written already, or says once that there are not so
many. An output is found with its header and these rows; each of them is told while the output is
opened. Calls for the next row, whatever else is asked for in between, are answered with the input
rows behind that many, in order; then, if the input has fewer rows than the output, with one error;
and with nothing for ever after. Each input row that is skipped is told, all of them at the first of
these calls. -/
theorem answers_of_found (options : EnrichOptions)
    (planned : options.plan tracking reader = .ok plan) (reads : reader.rows = input.map .ok)
    (resuming : resumer.output.canResume work = true)
    (finds : (options.outputContext plan reader).Finds resumer.output.path defaults work written) :
    let told := resumer.output.heard ++ written.map fun row => (.outputRowRead, row)
    let skipped := (input.take written.length).map fun row => (.inputRowSkipped, row)
    let offered : List (Except Error Offer) :=
      (input.zipIdx.drop written.length).map fun (row, index) => .ok ⟨index, row, none⟩
    let objected : List (Except Error Offer) :=
      if written.length ≤ input.length then []
      else [.error (.resume (.inputTooShort written.length input.length))]
    ∃ enricher ready, options.openResumed tracking reader (.rowCount resumer) defaults work =
        (.ok enricher, ready) ∧
      enricher.heard = told ∧
      ∀ asked : List Enricher.Call,
        let times := asked.countP Enricher.Call.asks
        enricher.answers asked ready = (List.range times).map ((offered ++ objected)[·]?) ∧
          (enricher.calls asked ready).2.1.heard = told ++ if times = 0 then [] else skipped := by
  intro told skipped offered objected
  obtain ⟨enricher, ready, opened, start, running, counting⟩ :=
    openResumed_of_found planned reads resuming finds
  have due : enricher.due written.length input = offered ++ objected := by
    simp only [Enricher.due, start, running, offers_lt, Nat.zero_add, Nat.sub_zero, List.map_map,
      Bool.false_eq_true, false_or, offered, objected]
    rfl
  have passing : enricher.passing written.length input = skipped := by
    rw [Enricher.passing, start, Nat.sub_zero]
  refine ⟨enricher, ready, opened, counting.heard_eq, fun asked => ?_⟩
  rw [← due, ← passing]
  exact counting.calls asked ready

/-- One row is written. An input without rows is objected to, and one of two rows goes on with the
second. -/
theorem answers_of_found_sample :
    let resumer : Resumer := .rowCount { output := .sample }
    let grown : Reader := { headerOnly with source := .listed [["ann"], ["bob"]], phase := .ready }
    (∃ enricher ready, ({} : EnrichOptions).openResumed .plain headerOnly resumer {} unendedWork =
        (.ok enricher, ready) ∧
      enricher.heard = [(.outputRowRead, ["ann"])] ∧
      enricher.answers [.next, .flush, .next, .next] ready =
        [some (.error (.resume (.inputTooShort 1 0))), none, none]) ∧
    ∃ enricher ready, ({} : EnrichOptions).openResumed .plain grown resumer {} unendedWork =
        (.ok enricher, ready) ∧
      enricher.answers [.next, .row 1 ["bob"] [], .next] ready =
        [some (.ok ⟨1, ["bob"], none⟩), none] ∧
      (enricher.calls [.next, .row 1 ["bob"] [], .next] ready).2.1.heard =
        [(.outputRowRead, ["ann"]), (.inputRowSkipped, ["ann"])] := by
  intro resumer grown
  have held : unendedWork.file? ResumableOutput.sample.path = some (Text.bytes "name\nann") :=
    Workspace.file?_put_self _ _ _
  have resuming : ResumableOutput.sample.canResume unendedWork = true :=
    ResumableOutput.canResume_of_filled held (by decide +kernel)
  have nothing : headerOnly.rows = ([] : List Row).map .ok := Reader.rows_of_next_none rfl
  have reads : grown.rows = [["ann"], ["bob"]].map .ok := by
    rw [Reader.rows_of_next_some rfl, Reader.rows_of_next_some rfl, Reader.rows_of_next_none rfl]
    rfl
  obtain ⟨short, early, objecting, told, answers⟩ :=
    @answers_of_found .plain headerOnly {} unendedWork unendedPlan { output := .sample } []
      [["ann"]] {} rfl nothing resuming finds_unended
  obtain ⟨enricher, ready, opened, _, calls⟩ :=
    @answers_of_found .plain grown {} unendedWork unendedPlan { output := .sample }
      [["ann"], ["bob"]] [["ann"]] {} rfl reads resuming finds_unended
  exact ⟨⟨short, early, objecting, told, (answers _).1⟩, enricher, ready, opened, (calls _).1,
    (calls _).2⟩

end EnrichOptions

end ResumableCsv
