import ResumableCsv.Enrich.Plan

/-!
Enrichers offer the input rows that are not done yet, each with its position in the input, and
remember once that the input has ended. What a resumer objects to at the end is reported once.
-/

namespace ResumableCsv

structure Enricher where
  reader : Reader
  writer : Writer
  plan : EnrichPlan
  endSymbol : String
  resumer : Option Resumer := none
  nextIndex : Nat := 0
  finished : Bool := false

/-- An input row to be worked on, with the batch to continue from if one was interrupted. -/
structure Offer where
  index : Nat
  row : Row
  resume : Option Batch := none
deriving DecidableEq, Repr

namespace EnrichOptions

def openSink (options : EnrichOptions) (tracking : Tracking) (reader : Reader) (sink : Sink)
    (defaults : Defaults) (work : Workspace) : Except Error (Enricher × Workspace) := do
  let plan ← options.plan tracking reader
  let (writer, work) ← (options.writerOptions plan reader defaults).openSink sink work
  pure ({ reader, writer, plan, endSymbol := options.endSymbol }, work)

/-- Continues the output of a resumer, which is given back when that fails. -/
def openResumed (options : EnrichOptions) (tracking : Tracking) (reader : Reader)
    (resumer : Resumer) (defaults : Defaults) (work : Workspace) :
    Except (Error × Resumer) Enricher × Workspace :=
  match options.plan tracking reader with
  | .error error => (.error (error, resumer), work)
  | .ok plan =>
    let context := options.outputContext plan reader
    let writerOptions := options.writerOptions plan reader defaults
    match writerOptions.resumeWith context resumer defaults work with
    | (.error error, resumer, work) => (.error (error, resumer), work)
    | (.ok writer, resumer, work) =>
      (.ok { reader, writer, plan, endSymbol := options.endSymbol, resumer := some resumer }, work)

end EnrichOptions

namespace Enricher

/-- Lets the resumer decide on a row; without one every row is offered. -/
def decide (resumer : Option Resumer) (index : Nat) (row : Row) (work : Workspace) :
    Except Error Verdict × Option Resumer × Workspace :=
  match resumer with
  | none => (.ok (.offer none), none, work)
  | some resumer =>
    let (outcome, resumer, work) := resumer.filter index row work
    (outcome, some resumer, work)

/-- The objection raised when the input is found to have ended for the first time. -/
def objection (enricher : Enricher) : Option (Except Error Offer) :=
  if enricher.finished then none
  else
    match enricher.resumer.map Resumer.finish with
    | some (.error error) => some (.error error)
    | _ => none

/-- The next input row that is not done yet. -/
def next (enricher : Enricher) (work : Workspace) :
    Option (Except Error Offer) × Enricher × Workspace :=
  match _step : enricher.reader.next with
  | (none, reader) =>
    (enricher.objection, { enricher with reader := reader, finished := true }, work)
  | (some (.error error), reader) =>
    (some (.error error),
      { enricher with reader := reader, nextIndex := enricher.nextIndex + 1 }, work)
  | (some (.ok row), reader) =>
    let index := enricher.nextIndex
    let advanced := { enricher with reader := reader, nextIndex := index + 1 }
    match decide enricher.resumer index row work with
    | (.error error, resumer, work) =>
      (some (.error error), { advanced with resumer := resumer }, work)
    | (.ok (.offer resume), resumer, work) =>
      (some (.ok ⟨index, row, resume⟩), { advanced with resumer := resumer }, work)
    | (.ok .skip, resumer, work) => next { advanced with resumer := resumer } work
termination_by enricher.reader.measure
decreasing_by
  have earlier := Reader.before_next enricher.reader
  rw [_step] at earlier
  exact earlier (by simp)

/-- What bounds the offers and objections still to come. -/
def measure (enricher : Enricher) : (Nat × Nat) × Nat :=
  (enricher.reader.measure, if enricher.finished then 0 else 1)

abbrev Before (enricher other : Enricher) : Prop :=
  Prod.Lex (Prod.Lex (· < ·) (· < ·)) (· < ·) enricher.measure other.measure

theorem before_of_reader {enricher other : Enricher}
    (earlier : enricher.reader.Before other.reader) :
    enricher.Before other := Prod.Lex.left _ _ earlier

theorem before_of_end {enricher other : Enricher} (ended : enricher.reader.measure = (0, 0))
    (done : enricher.finished = true) (running : other.finished = false) :
    enricher.Before other := by
  simp only [Before, measure, ended, done, running, Prod.lex_def]
  rcases other.reader.measure with ⟨_ | _, _ | _⟩ <;> simp

theorem Before.trans {first second third : Enricher} (earlier : first.Before second)
    (later : second.Before third) : first.Before third := by
  simp only [Before, Prod.lex_def] at earlier later ⊢
  grind

theorem before_next (enricher : Enricher) (work : Workspace)
    (found : (enricher.next work).1 ≠ none) : (enricher.next work).2.1.Before enricher := by
  fun_induction next enricher work with
  | case1 enricher work reader step =>
    have ended := Reader.measure_of_next_none enricher.reader
    rw [step] at ended
    cases done : enricher.finished with
    | true => simp [objection, done] at found
    | false => exact before_of_end (ended rfl) rfl done
  | case2 enricher work error reader step =>
    have earlier := Reader.before_next enricher.reader
    rw [step] at earlier
    exact before_of_reader (earlier (by simp))
  | case3 enricher work row reader step =>
    have earlier := Reader.before_next enricher.reader
    rw [step] at earlier
    exact before_of_reader (earlier (by simp))
  | case4 enricher work row reader step =>
    have earlier := Reader.before_next enricher.reader
    rw [step] at earlier
    exact before_of_reader (earlier (by simp))
  | case5 enricher work row reader step index advanced resumer rest _ ih =>
    have earlier := Reader.before_next enricher.reader
    rw [step] at earlier
    exact (ih found).trans (before_of_reader (earlier (by simp)))

/-- Iterates up to the end, or up to a number of items. -/
def pull (limit : Option Nat) (enricher : Enricher) (work : Workspace) :
    List (Except Error Offer) × Enricher × Workspace :=
  if limit = some 0 then ([], enricher, work)
  else
    match _step : enricher.next work with
    | (none, last) => ([], last)
    | (some item, rest, restWork) =>
      let (items, last) := pull (limit.map (· - 1)) rest restWork
      (item :: items, last)
termination_by enricher.measure
decreasing_by
  have earlier := before_next enricher work
  rw [_step] at earlier
  exact earlier (by simp)

end Enricher

end ResumableCsv
