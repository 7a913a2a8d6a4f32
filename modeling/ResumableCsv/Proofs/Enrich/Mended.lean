import ResumableCsv.Proofs.Enrich.Torn

/-!
Runs to the end on an output that broke off inside a record. What cannot be read is reported and
left alone. A record that was cut outside of quotes, so that only the end of its last cell is
missing, is ended by a line feed and stays as it is, the rows that are still due follow, and all of
them are read back.
-/

namespace ResumableCsv

open Record

namespace Job

variable {job : Job} {nuls : NulPolicy} {added : Nat → Row → Row} {work : Workspace}

section

variable {rows before after : List Row} {record : Row} {torn : Bytes}
  (broke : job.BreaksOff nuls rows before record after torn work)
  (fit : ∀ row ∈ rows, (job.writerOptions nuls).Fits job.plan.outputLength row)

include broke fit

theorem BreaksOff.length_following {last cell : String} {rest : List Row}
    (due : rest.Perm (job.following record after last cell)) :
    ∀ row ∈ rest.map nuls.stored, row.length = job.plan.outputLength := by
  intro row member
  obtain ⟨origin, there, rfl⟩ := List.mem_map.mp member
  rw [NulPolicy.length_stored]
  refine (fit origin ?_).length_eq
  have here := due.subset there
  rw [broke.split]
  unfold following at here
  split at here
  · exact List.mem_append_right _ here
  · exact List.mem_append_right _ (List.mem_cons_of_mem _ here)

/-- Where the cut fell outside of quotes, ending the line ends the record. -/
theorem BreaksOff.mended {front : Row} {last cell : String}
    (passes : job.Passes nuls record torn front last cell)
    (balanced : Balanced job.context.dialect torn) (more : Bytes) :
    ended (job.storedText nuls before ++ torn) ++ more =
        job.storedText nuls before ++ (torn ++ lineFeed :: more) ∧
      scanRecord job.context.dialect (torn ++ lineFeed :: more) =
        some ⟨(front ++ [cell]).map Text.bytes, .terminator, more⟩ := by
  obtain ⟨open_end, scanned⟩ := scanRecord_mended job.apart broke.some_byte
    (broke.leading_rowText fit) balanced passes.scanned
  refine ⟨?_, scanned more⟩
  have open_line : (job.storedText nuls before ++ torn).getLast? ≠ some lineFeed := by
    obtain ⟨byte, last⟩ := Option.ne_none_iff_exists'.mp
      (mt List.getLast?_eq_none_iff.mp broke.some_byte)
    rw [List.getLast?_append, last]
    rwa [last] at open_end
  rw [ended, if_neg open_line, List.append_assoc, List.append_assoc]
  rfl

/-- The record that was cut is read back as what is left of it, and those behind it as they are. -/
theorem BreaksOff.finds_mended {names : Row} (headed : job.plan.fieldnames = some names)
    (unmarked : ∀ name ∈ (nuls.stored names).head?, ¬Text.StartsWithMark name)
    (same : nuls.stored names = names) {front : Row} {last cell : String}
    (passes : job.Passes nuls record torn front last cell)
    (balanced : Balanced job.context.dialect torn) {rest : List Row}
    (due : rest.Perm (job.following record after last cell)) {final : Workspace}
    (holds : final.Holds job.path (ended (job.storedText nuls before ++ torn) ++
      tableText job.context.dialect (rest.map nuls.stored))) :
    job.context.Finds job.path job.defaults final
      (before.map nuls.stored ++ (front ++ [cell]) :: rest.map nuls.stored) := by
  obtain ⟨text, scanned⟩ := broke.mended fit passes balanced
    (tableText job.context.dialect (rest.map nuls.stored))
  have held := holds.held
  rw [text] at held
  have length : (front ++ [cell]).length = job.plan.outputLength := by
    rw [← broke.length_record fit, passes.stored]
    simp
  exact finds_of_scanned headed unmarked (broke.length_before fit) held same
    (List.forall_mem_cons.mpr ⟨length, broke.length_following fit due⟩) scanned

variable (unended : torn ++ [lineFeed] =
  encode job.context.dialect ((nuls.stored record).map Text.bytes))

include unended

theorem BreaksOff.rowText_of_unended :
    torn = rowText job.context.dialect
      (spelling job.context.dialect ((nuls.stored record).map Text.bytes)) := by
  rw [encode_eq _ (by simpa using broke.record_ne_nil fit)] at unended
  exact List.append_cancel_right unended

theorem BreaksOff.balanced_of_unended : Balanced job.context.dialect torn := by
  rw [broke.rowText_of_unended fit unended]
  exact balanced_rowText job.apart _

/-- When only the line feed is missing, the record passes as it is. -/
theorem BreaksOff.passes_of_unended
    (readable : job.tracking = .indexed →
      (Text.readCounter? (job.indexCell (nuls.stored record)).toList).isSome) :
    ∃ front last, job.Passes nuls record torn front last last := by
  obtain ⟨front, last, split⟩ :=
    (List.eq_nil_or_concat (nuls.stored record)).resolve_left (broke.record_ne_nil fit)
  rw [List.concat_eq_append] at split
  refine ⟨front, last, split, List.prefix_refl _, ?_, ?_⟩
  · rw [← split, broke.rowText_of_unended fit unended]
    exact scanRecord_unended job.apart (by simpa using broke.record_ne_nil fit)
  · rw [← split]
    exact readable

/-- Ending its line is then all that is needed. -/
theorem BreaksOff.ended_of_unended {front : Row} {last : String}
    (passes : job.Passes nuls record torn front last last) (rest : List Row) :
    ended (job.storedText nuls before ++ torn) ++
        tableText job.context.dialect (rest.map nuls.stored) =
      job.storedText nuls (before ++ record :: rest) := by
  rw [(broke.mended fit passes (broke.balanced_of_unended fit unended) _).1, storedText_append,
    List.map_cons, List.append_cons, unended]
  rfl

end

section

variable {first others : List Offer} {one : Offer} {torn : Bytes}
  (whole : (first ++ one :: others).Perm (offers (fun _ => false) 0 job.rows))
  (ordered : job.tracking ≠ .indexed → first ++ one :: others = offers (fun _ => false) 0 job.rows)
  (broke : job.BreaksOff nuls ((first ++ one :: others).map (job.entryFor added))
    (first.map (job.entryFor added)) (job.entryFor added one)
    (others.map (job.entryFor added)) torn work)
  (fit : ∀ row ∈ (first ++ one :: others).map (job.entryFor added),
    (job.writerOptions nuls).Fits job.plan.outputLength row)
  {names : Row} (headed : job.plan.fieldnames = some names)
  (unmarked : ∀ name ∈ (nuls.stored names).head?, ¬Text.StartsWithMark name)

theorem following_eq (one : Offer) (others : List Offer) (last cell : String) :
    job.following (job.entryFor added one) (others.map (job.entryFor added)) last cell =
      (if job.CutsIndex last cell then one :: others else others).map (job.entryFor added) := by
  unfold following
  split <;> rfl

include whole ordered broke fit headed unmarked

/-- What passes is kept: its line is ended, and the records that follow come behind it. -/
theorem BreaksOff.continues_of_passes (same : nuls.stored names = names)
    (bounded : job.tracking = .indexed → job.rows.length ≤ UInt64.size) {front : Row}
    {last cell : String} (passes : job.Passes nuls (job.entryFor added one) torn front last cell)
    (there : job.CutsIndex last cell →
      (first ++ one :: others).map (job.entryFor added) = job.entries added ∨
        job.indexCell (front ++ [cell]) ∈ (first.map (job.entryFor added)).map job.indexCell) :
    let following := job.following (job.entryFor added one) (others.map (job.entryFor added)) last
      cell
    job.Continues nuls added work fun final => ∃ rest, rest.Perm following ∧
      (job.tracking ≠ .indexed → rest = following) ∧
      final.Holds job.path
        (ended (job.storedText nuls (first.map (job.entryFor added)) ++ torn) ++
          tableText job.context.dialect (rest.map nuls.stored)) := by
  obtain ⟨done, looked, inspected, still, skips, due, in_turn⟩ :=
    broke.inspect whole fit passes headed unmarked same bounded ordered there
  obtain ⟨enricher, resumed, fresh, stores⟩ :=
    stores_behind path_positionResumer broke.content_ne_nil broke.holds still inspected
  have sound := Sound.of_fresh stores fresh skips
  refine (sound.continues resumed ?_).imp ?_
  · intro offer member
    apply fit
    refine List.mem_map_of_mem ?_
    have here := due.subset member
    split at here
    · exact List.mem_append_right _ here
    · exact List.mem_append_right _ (List.mem_cons_of_mem _ here)
  · rintro final ⟨order, reordered, kept, holds⟩
    rw [following_eq]
    refine ⟨order.map (job.entryFor added), (reordered.trans due).map _, ?_, holds⟩
    intro plain
    rw [kept plain, in_turn plain]

omit whole ordered in
/-- What does not pass is reported, and the output is left alone. -/
theorem BreaksOff.refused_of_not_passes
    (fails : ¬(nuls.stored names = names ∧
      ∃ front last cell, job.Passes nuls (job.entryFor added one) torn front last cell)) :
    ∃ error looked, job.resumeStoring nuls job.positionResumer work =
      (.error (error, looked), work) := by
  have unreadable : job.Unreadable work := by
    by_cases same : nuls.stored names = names
    · exact broke.unreadable headed unmarked fit same fun passes => fails ⟨same, passes⟩
    · have checked := checkHeader_of_held headed unmarked (broke.length_before fit) broke.holds.held
      rw [if_neg same] at checked
      exact .header checked
  obtain ⟨error, refused⟩ := unreadable.inspect
  rcases inspected : job.positionResumer.inspect job.context job.defaults work with
    ⟨outcome, looked⟩
  rw [inspected] at refused
  obtain rfl : outcome = .error error := refused
  exact ⟨error, looked, resumeStoring_refused path_positionResumer broke.content_ne_nil
    broke.holds.held inspected⟩

/-- When the cut fell outside of quotes, all is read back but what is missing. -/
theorem BreaksOff.continues_mended (same : nuls.stored names = names)
    (bounded : job.tracking = .indexed → job.rows.length ≤ UInt64.size) {front : Row}
    {last cell : String} (passes : job.Passes nuls (job.entryFor added one) torn front last cell)
    (balanced : Balanced job.context.dialect torn)
    (there : job.CutsIndex last cell →
      (first ++ one :: others).map (job.entryFor added) = job.entries added ∨
        job.indexCell (front ++ [cell]) ∈ (first.map (job.entryFor added)).map job.indexCell) :
    let following := job.following (job.entryFor added one) (others.map (job.entryFor added)) last
      cell
    job.Continues nuls added work fun final => ∃ rest, rest.Perm following ∧
      (job.tracking ≠ .indexed → rest = following) ∧
      job.context.Finds job.path job.defaults final
        ((first.map (job.entryFor added)).map nuls.stored ++
          (front ++ [cell]) :: rest.map nuls.stored) := by
  refine (broke.continues_of_passes whole ordered fit headed unmarked same bounded passes
    there).imp ?_
  rintro final ⟨rest, due, kept, holds⟩
  exact ⟨rest, due, kept, broke.finds_mended fit headed unmarked same passes balanced due holds⟩

/-- When only a line feed is missing, the records are all back as they were. -/
theorem BreaksOff.continues_unended (same : nuls.stored names = names)
    (bounded : job.tracking = .indexed → job.rows.length ≤ UInt64.size)
    (unended : torn ++ [lineFeed] =
      encode job.context.dialect ((nuls.stored (job.entryFor added one)).map Text.bytes)) :
    job.Continues nuls added work fun final => ∃ rest,
      rest.Perm (others.map (job.entryFor added)) ∧
      (job.tracking ≠ .indexed → rest = others.map (job.entryFor added)) ∧
      final.file? job.path = some (job.storedText nuls
        (first.map (job.entryFor added) ++ job.entryFor added one :: rest)) := by
  obtain ⟨front, last, passes⟩ := broke.passes_of_unended fit unended fun indexed => by
    have inside := index_lt_of_perm whole (List.mem_append_right first List.mem_cons_self)
    rw [indexCell_stored indexed, readCounter?_position (bounded indexed) inside]
    rfl
  have uncut : ¬job.CutsIndex last last := fun cuts => cuts.2.2 rfl
  have continues := broke.continues_of_passes whole ordered fit headed unmarked same bounded
    passes fun cuts => absurd cuts uncut
  rw [following, if_neg uncut] at continues
  refine continues.imp ?_
  rintro final ⟨rest, due, kept, holds⟩
  refine ⟨rest, due, kept, ?_⟩
  rw [holds.held, broke.ended_of_unended fit unended passes]

end

/-- Let one run write all rows into a new output file, in turn or, with an index, in any order. If
that file broke off inside a record, the next run reports an error and changes nothing whenever the
header is not read back as declared, or what is left of the record does not pass for a whole one.

If it passes and the cut fell outside of quotes, the run can write all rows that it is offered, and
then the file is read back to its end: the whole records, what is left of the one that was cut, and
the records that stood behind it, together with that one again if its index was cut. What is left
of an index has to name a record that is there whole, as it always does when the rows stand in input
order. If only a line feed was missing, all records are back as they were.

The output path is that of a file, not the dash of the console. -/
theorem torn_runs_finish (job : Job) {names : Row} (headed : job.plan.fieldnames = some names)
    (nuls : NulPolicy) (unmarked : ∀ name ∈ (nuls.stored names).head?, ¬Text.StartsWithMark name)
    (bounded : job.tracking = .indexed → job.rows.length ≤ UInt64.size)
    (added : Nat → Row → Row) {vacant : Workspace} (home : vacant.Home job.path)
    (absent : vacant.size job.path = 0) {single : Session}
    (finished : job.WritesAll nuls added vacant single) :
    let rows := single.written.map job.entry
    rows.Perm (job.entries added) ∧
    (job.tracking ≠ .indexed → rows = job.entries added) ∧
    single.close.file? job.path = some (job.storedText nuls rows) ∧
    ∀ before record after torn work, job.BreaksOff nuls rows before record after torn work →
      (¬(nuls.stored names = names ∧
          ∃ front last cell, job.Passes nuls record torn front last cell) →
        ∃ error looked, job.resumeStoring nuls job.positionResumer work =
          (.error (error, looked), work)) ∧
      (nuls.stored names = names →
        ∀ front last cell, job.Passes nuls record torn front last cell →
          Balanced job.context.dialect torn →
          (job.CutsIndex last cell → rows = job.entries added ∨
            job.indexCell (front ++ [cell]) ∈ before.map job.indexCell) →
          let following := job.following record after last cell
          job.Continues nuls added work fun final =>
            ∃ rest, rest.Perm following ∧ (job.tracking ≠ .indexed → rest = following) ∧
              job.context.Finds job.path job.defaults final
                (before.map nuls.stored ++ (front ++ [cell]) :: rest.map nuls.stored)) ∧
      (nuls.stored names = names →
        torn ++ [lineFeed] =
          encode job.context.dialect ((nuls.stored record).map Text.bytes) →
          job.Continues nuls added work fun final =>
            ∃ rest, rest.Perm after ∧ (job.tracking ≠ .indexed → rest = after) ∧
              final.file? job.path =
                some (job.storedText nuls (before ++ record :: rest))) := by
  obtain ⟨order, whole, in_turn, written, fit, closed⟩ := finished.anew home absent
  intro rows
  have rows_eq : rows = order.map (job.entryFor added) := written
  refine ⟨?_, ?_, closed.held, ?_⟩
  · rw [rows_eq, entries_eq]
    exact whole.map _
  · intro plain
    rw [rows_eq, entries_eq, in_turn plain]
  intro before record after torn work broke
  obtain ⟨first, behind, rfl, rfl, split⟩ :=
    List.map_eq_append_iff.mp (rows_eq.symm.trans broke.split)
  obtain ⟨one, others, rfl, rfl, rfl⟩ := List.map_eq_cons_iff.mp split
  rw [rows_eq] at broke
  have fit : ∀ row ∈ (first ++ one :: others).map (job.entryFor added),
      (job.writerOptions nuls).Fits job.plan.outputLength row := rows_eq ▸ fit
  refine ⟨broke.refused_of_not_passes fit headed unmarked, ?_, ?_⟩
  · intro same front last cell passes balanced there
    rw [rows_eq] at there
    exact broke.continues_mended whole in_turn fit headed unmarked same bounded passes balanced
      there
  · intro same unended
    exact broke.continues_unended whole in_turn fit headed unmarked same bounded unended

/-- Files that hold the header and what is left of the first record. -/
def sampleTorn (tracking : Tracking) (torn : Bytes) : Workspace :=
  Workspace.put {} (sample tracking).path ((sample tracking).storedText .keep [] ++ torn)

theorem sample_breaksOff {tracking : Tracking} {record : Row} (after : List Row) {text : Bytes}
    (encoded : encode (sample tracking).context.dialect (record.map Text.bytes) = text)
    (torn : Bytes) (some_byte : torn ≠ []) (leading : torn <+: text) (short : torn ≠ text) :
    (sample tracking).BreaksOff .keep (record :: after) [] record after torn
      (sampleTorn tracking torn) := by
  rw [← encoded] at leading short
  exact ⟨rfl, some_byte, leading, short, (sample_home tracking).put_holds _⟩

theorem sample_scanned {tracking : Tracking} {row : Row} (filled : row ≠ []) {text : Bytes}
    (written : rowText (sample tracking).context.dialect
      (spelling (sample tracking).context.dialect (row.map Text.bytes)) = text) :
    scanRecord (sample tracking).context.dialect text =
      some ⟨row.map Text.bytes, .inputEnd, []⟩ := by
  rw [← written]
  exact scanRecord_unended (sample tracking).apart (by simpa using filled)

theorem sample_sound (tracking : Tracking) :
    ∃ enricher opened, (sample tracking).resumeStoring .keep (sample tracking).positionResumer {} =
        (.ok enricher, opened) ∧
      (sample tracking).Sound .keep (fun _ => false) ((sample tracking).storedText .keep [])
        { enricher := enricher, work := opened } := by
  obtain ⟨writer, opened, built⟩ := exists_built_keep (sample_home tracking)
  obtain ⟨enricher, resumed, sound⟩ := sound_anew (sample_home tracking) rfl built
  exact ⟨enricher, opened, resumed, sound⟩

/-- A run that writes the second row before the first one. -/
theorem sample_writesAll_late :
    ∃ single, (sample .indexed).WritesAll .keep sampleNote {} single ∧
      single.written = [(⟨1, ["bob"], none⟩, ["new"]), (⟨0, ["ann"], none⟩, ["new"])] := by
  obtain ⟨enricher, opened, resumed, sound⟩ := sample_sound .indexed
  have late : [⟨1, ["bob"], none⟩, ⟨0, ["ann"], none⟩].Perm
      (offers (fun _ => false) 0 (sample .indexed).rows) := .swap _ _ _
  exact sound.exists_writesAll resumed late (fun plain => absurd rfl plain)
    fun offer _ => fits_keep ((length_entry (by decide) _).mpr rfl)

theorem torn_runs_finish_sample :
    ∃ single cut whole, (sample .indexed).WritesAll .keep sampleNote {} single ∧
      single.close.file? (sample .indexed).path =
        some (Text.bytes "name,index,note\nbob,1,new\nann,0,new\n") ∧
      (∃ error looked, (sample .indexed).resumeStoring .keep (sample .indexed).positionResumer
          (sampleTorn .indexed (Text.bytes "bo")) =
        (.error (error, looked), sampleTorn .indexed (Text.bytes "bo"))) ∧
      (sample .indexed).WritesAll .keep sampleNote
        (sampleTorn .indexed (Text.bytes "bob,1,ne")) cut ∧
      (sample .indexed).context.Finds (sample .indexed).path (sample .indexed).defaults cut.close
        [["bob", "1", "ne"], ["ann", "0", "new"]] ∧
      (sample .indexed).WritesAll .keep sampleNote
        (sampleTorn .indexed (Text.bytes "bob,1,new")) whole ∧
      whole.close.file? (sample .indexed).path =
        some (Text.bytes "name,index,note\nbob,1,new\nann,0,new\n") := by
  obtain ⟨single, finished, written⟩ := sample_writesAll_late
  obtain ⟨_, _, held, torn⟩ := torn_runs_finish (sample .indexed) rfl .keep
    (by simp [NulPolicy.stored, Text.StartsWithMark, Tracking.columnName?]) (fun _ => by decide)
    sampleNote (sample_home .indexed) rfl finished
  rw [written] at held torn
  have file : (sample .indexed).storedText .keep [["bob", "1", "new"], ["ann", "0", "new"]] =
      Text.bytes "name,index,note\nbob,1,new\nann,0,new\n" := by decide +kernel
  have record : encode (sample .indexed).context.dialect (["bob", "1", "new"].map Text.bytes) =
      Text.bytes "bob,1,new\n" := by decide +kernel
  have broke := sample_breaksOff [["ann", "0", "new"]] record
  obtain ⟨refused, _⟩ :=
    torn _ _ _ _ _ (broke (Text.bytes "bo") (by decide) (by decide) (by decide))
  obtain ⟨_, keeps, _⟩ :=
    torn _ _ _ _ _ (broke (Text.bytes "bob,1,ne") (by decide) (by decide) (by decide))
  obtain ⟨_, _, restores⟩ :=
    torn _ _ _ _ _ (broke (Text.bytes "bob,1,new") (by decide) (by decide) (by decide))
  have uncut : ¬(sample .indexed).CutsIndex "new" "ne" := by decide
  obtain ⟨_, _, ⟨cut, cut_all⟩, cut_leaves⟩ := keeps rfl ["bob", "1"] "new" "ne"
    ⟨rfl, by decide, sample_scanned (by decide) (by decide +kernel), fun _ => by decide +kernel⟩
    (by decide +kernel) (fun cuts => absurd cuts uncut)
  obtain ⟨_, _, ⟨whole, whole_all⟩, whole_leaves⟩ := restores rfl (by decide +kernel)
  refine ⟨single, cut, whole, finished, held.trans (congrArg some file), refused ?_, cut_all, ?_,
    whole_all, ?_⟩
  · rintro ⟨_, front, last, cell, passes⟩
    have scanned : scanRecord (sample .indexed).context.dialect (Text.bytes "bo") =
        some ⟨["bo"].map Text.bytes, .inputEnd, []⟩ :=
      sample_scanned (by decide) (by decide +kernel)
    rw [passes.scanned] at scanned
    have cells := congrArg (fun found => found.map fun scan => scan.value.length) scanned
    have whole := congrArg List.length passes.stored
    simp only [Option.map_some, List.length_map, List.length_append, Option.some.injEq,
      NulPolicy.length_stored, List.length_cons, List.length_nil] at cells whole
    omega
  · obtain ⟨rest, due, _, finds⟩ := cut_leaves cut cut_all
    rw [following, if_neg uncut, List.perm_singleton] at due
    rw [due] at finds
    exact finds
  · obtain ⟨rest, due, _, final⟩ := whole_leaves whole whole_all
    rw [List.perm_singleton] at due
    rw [due] at final
    exact final.trans (congrArg some file)

/-- A cell that was cut short stays in the output as it is, where the whole run has a longer one. -/
theorem torn_record_kept :
    ∃ single again, (sample .plain).WritesAll .keep sampleNote {} single ∧
      single.close.file? (sample .plain).path =
        some (Text.bytes "name,note\nann,new\nbob,new\n") ∧
      (sampleTorn .plain (Text.bytes "ann,ne")).file? (sample .plain).path =
        some (Text.bytes "name,note\nann,ne") ∧
      (sample .plain).WritesAll .keep sampleNote (sampleTorn .plain (Text.bytes "ann,ne")) again ∧
      again.close.file? (sample .plain).path =
        some (Text.bytes "name,note\nann,ne\nbob,new\n") := by
  let one : Offer := ⟨0, ["ann"], none⟩
  let other : Offer := ⟨1, ["bob"], none⟩
  have due : [one, other] = offers (fun _ => false) 0 (sample .plain).rows := rfl
  have fit (offer : Offer) : ((sample .plain).writerOptions .keep).Fits
      (sample .plain).plan.outputLength ((sample .plain).entryFor sampleNote offer) :=
    fits_keep ((length_entry (by decide) _).mpr rfl)
  have unmarked : ∀ name ∈ (NulPolicy.keep.stored ["name", "note"]).head?,
      ¬Text.StartsWithMark name := by
    simp [NulPolicy.stored, Text.StartsWithMark]
  obtain ⟨enricher, opened, resumed, sound⟩ := sample_sound .plain
  obtain ⟨single, finished, written⟩ :=
    sound.exists_writesAll resumed (.of_eq due) (fun _ => due) fun offer _ => fit offer
  obtain ⟨_, _, _, _, _, holds⟩ := finished.anew (sample_home .plain) rfl
  have record : encode (sample .plain).context.dialect (["ann", "new"].map Text.bytes) =
      Text.bytes "ann,new\n" := by decide +kernel
  have broke : (sample .plain).BreaksOff .keep
      (([] ++ one :: [other]).map ((sample .plain).entryFor sampleNote))
      (([] : List Offer).map ((sample .plain).entryFor sampleNote))
      ((sample .plain).entryFor sampleNote one)
      ([other].map ((sample .plain).entryFor sampleNote)) (Text.bytes "ann,ne")
      (sampleTorn .plain (Text.bytes "ann,ne")) :=
    sample_breaksOff [["bob", "new"]] record _ (by decide) (by decide) (by decide)
  have passes : (sample .plain).Passes .keep ["ann", "new"] (Text.bytes "ann,ne") ["ann"] "new"
      "ne" :=
    ⟨rfl, by decide, sample_scanned (by decide) (by decide +kernel),
      fun indexed => by cases indexed⟩
  obtain ⟨_, _, ⟨again, again_all⟩, leaves⟩ := broke.continues_of_passes (.of_eq due)
    (fun _ => due) (List.forall_mem_map.mpr fun offer _ => fit offer) rfl unmarked rfl
    (fun indexed => by cases indexed) passes (fun cuts => by cases cuts.1)
  obtain ⟨rest, _, kept, final⟩ := leaves again again_all
  refine ⟨single, again, finished, ?_, ?_, again_all, ?_⟩
  · rw [holds.held, written]
    decide +kernel
  · rw [sampleTorn, Workspace.file?_put_self]
    decide +kernel
  · rw [final.held, kept (by decide)]
    decide +kernel

end Job

end ResumableCsv
