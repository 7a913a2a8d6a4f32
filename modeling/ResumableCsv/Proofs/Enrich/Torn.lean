import ResumableCsv.Proofs.Enrich.Finish
import ResumableCsv.Proofs.Reader.Breaks

/-!
Outputs that broke off inside a record, and what a resumer makes of them. The header check looks at
the first record alone, so all depends on the last one: either it cannot be read, or only the end of
its last cell is missing and it is skipped like the others, unless that cell was its index.
-/

namespace ResumableCsv

open Record

/-- The index of an input row holds no NUL. -/
theorem NulPolicy.stripCell_toString (n : Nat) : stripCell (toString n) = toString n := by
  have digits : (toString n).toList.filter (· ≠ '\x00') = (toString n).toList := by
    rw [List.filter_eq_self]
    intro c member
    rw [Text.toList_toString] at member
    have digit := List.all_eq_true.mp (Text.all_isAsciiDigit_decimal n) c member
    rw [decide_eq_true_iff]
    rintro rfl
    cases digit
  rw [stripCell, digits, String.ofList_toList]

theorem NulPolicy.cell_stored {row : Row} {column : Nat} {n : Nat}
    (cell : row.cell column = toString n) (policy : NulPolicy) :
    (policy.stored row).cell column = toString n := by
  unfold stored
  split
  · rw [← stripCell_toString, ← cell, Row.cell, Row.cell, List.getElem?_map]
    cases row[column]? <;> rfl
  · exact cell

namespace Job

variable (job : Job)

/-- An output that cannot be read to its end, or not the index of one of its rows. -/
inductive Unreadable (work : Workspace) : Prop
  | header {error : Error}
      (refused : job.context.checkHeader job.path job.defaults work = .error error)
  | file {error : Error}
      (refused : (job.context.readerOptions job.defaults).openPath job.path work = .error error)
  | rows {reader : Reader} {before : List Row} {error : Error} {items : List (Except Error Row)}
      (opened : (job.context.readerOptions job.defaults).openPath job.path work = .ok reader)
      (breaks : reader.rows = before.map .ok ++ .error error :: items)
  | index {reader : Reader} {before : List Row} {row : Row} (indexed : job.tracking = .indexed)
      (opened : (job.context.readerOptions job.defaults).openPath job.path work = .ok reader)
      (rows : reader.rows = (before ++ [row]).map .ok)
      (corrupted : Text.readCounter? (job.indexCell row).toList = none)

/-- The output broke off inside a record: behind the header and whole records stands the beginning
of another one, of which some bytes are there and some are missing. -/
structure BreaksOff (nuls : NulPolicy) (rows before : List Row) (record : Row) (after : List Row)
    (torn : Bytes) (work : Workspace) : Prop where
  split : rows = before ++ record :: after
  some_byte : torn ≠ []
  leading : torn <+: encode job.context.dialect ((nuls.stored record).map Text.bytes)
  short : torn ≠ encode job.context.dialect ((nuls.stored record).map Text.bytes)
  holds : work.Holds job.path (job.storedText nuls before ++ torn)

/-- What is left of a record passes for a whole one: only its last cell may be shorter, and its
index, where there is one, can be read. -/
structure Passes (nuls : NulPolicy) (record : Row) (torn : Bytes) (front : Row)
    (last cell : String) : Prop where
  stored : nuls.stored record = front ++ [last]
  shorter : Text.bytes cell <+: Text.bytes last
  scanned : scanRecord job.context.dialect torn =
    some ⟨(front ++ [cell]).map Text.bytes, .inputEnd, []⟩
  readable : job.tracking = .indexed →
    (Text.readCounter? (job.indexCell (front ++ [cell])).toList).isSome

/-- The index of a record was cut, which can only be where no column is added behind it. -/
def CutsIndex (last cell : String) : Prop :=
  job.tracking = .indexed ∧ job.plan.addedLength = 0 ∧ cell ≠ last

instance (last cell : String) : Decidable (job.CutsIndex last cell) :=
  inferInstanceAs (Decidable (_ ∧ _ ∧ _))

/-- The records that are written behind what is left of one: that one again when its index was
cut. -/
def following (record : Row) (after : List Row) (last cell : String) : List Row :=
  if job.CutsIndex last cell then record :: after else after

variable {job} {nuls : NulPolicy} {added : Nat → Row → Row} {work : Workspace}

/-- The header check, the opening of the output and the reading of its rows are done in turn. -/
theorem counted_outcome (job : Job) (work : Workspace) :
    (job.countedResumer.inspect job.context job.defaults work).1 = (do
      job.context.checkHeader job.path job.defaults work
      let reader ← (job.context.readerOptions job.defaults).openPath job.path work
      (Outcome.untilFailure reader.rows).2) := by
  have here : job.output.path = job.path := rfl
  simp only [countedResumer, Resumer.inspect, RowCountResumer.inspect, here]
  cases job.context.checkHeader job.path job.defaults work with
  | error error => rfl
  | ok _ =>
    cases (job.context.readerOptions job.defaults).openPath job.path work with
    | error error => rfl
    | ok reader =>
      simp only [Outcome.ok_bind]
      cases (Outcome.untilFailure reader.rows).2 <;> rfl

theorem indexed_outcome (indexed : job.tracking = .indexed) (work : Workspace) :
    (job.indexedResumer.inspect job.context job.defaults work).1 = (do
      job.context.checkHeader job.path job.defaults work
      let reader ← (job.context.readerOptions job.defaults).openPath job.path work
      (fun _ => ()) <$> (IndexedResumer.collect job.plan.selected.length 0 .empty
        reader.rows).2) := by
  have here : job.output.path = job.path := rfl
  simp only [indexedResumer, Resumer.inspect, IndexedResumer.inspect, here, indexColumn_eq indexed]
  cases job.context.checkHeader job.path job.defaults work with
  | error error => rfl
  | ok _ =>
    cases (job.context.readerOptions job.defaults).openPath job.path work with
    | error error => rfl
    | ok reader =>
      simp only [Outcome.ok_bind, pure, Except.pure]
      cases (IndexedResumer.collect job.plan.selected.length 0 .empty reader.rows).2 <;> rfl

/-- Whatever cannot be read is reported. -/
theorem Unreadable.inspect (unreadable : job.Unreadable work) :
    ∃ error, (job.positionResumer.inspect job.context job.defaults work).1 = .error error := by
  unfold positionResumer
  split
  next indexed =>
    rw [indexed_outcome indexed]
    cases checked : job.context.checkHeader job.path job.defaults work with
    | error error => exact ⟨error, rfl⟩
    | ok _ =>
      cases unreadable with
      | header refused => cases checked.symm.trans refused
      | @file error refused => exact ⟨error, by rw [refused]; rfl⟩
      | @rows reader before error items opened breaks =>
        have first (number : Nat) (done : RangeSet) : ∃ fault, (IndexedResumer.collect
            job.plan.selected.length number done (.error error :: items)).2 = .error fault :=
          ⟨error, rfl⟩
        obtain ⟨error, fails⟩ := IndexedResumer.collect_append_error first before 0 .empty
        exact ⟨error, by rw [opened, Outcome.ok_bind, Outcome.ok_bind, breaks, fails]; rfl⟩
      | @index reader before row _ opened rows corrupted =>
        have last (number : Nat) (done : RangeSet) : ∃ error, (IndexedResumer.collect
            job.plan.selected.length number done ([row].map .ok)).2 = .error error := by
          refine ⟨.corruptedIndexColumn (job.indexCell row) number, ?_⟩
          simp only [List.map_cons, IndexedResumer.collect,
            show Text.readCounter? (row.cell job.plan.selected.length).toList = none from corrupted]
          rfl
        obtain ⟨error, fails⟩ := IndexedResumer.collect_append_error last before 0 .empty
        rw [← List.map_append, ← rows] at fails
        exact ⟨error, by rw [opened, Outcome.ok_bind, Outcome.ok_bind, fails]; rfl⟩
  next other =>
    rw [counted_outcome]
    cases checked : job.context.checkHeader job.path job.defaults work with
    | error error => exact ⟨error, rfl⟩
    | ok _ =>
      cases unreadable with
      | header refused => cases checked.symm.trans refused
      | @file error refused => exact ⟨error, by rw [refused]; rfl⟩
      | @rows reader before error items opened breaks =>
        exact ⟨error, by
          rw [opened, Outcome.ok_bind, Outcome.ok_bind, breaks, Outcome.untilFailure_of_error]⟩
      | index indexed => exact absurd indexed other

theorem reads_plain :
    (job.context.readerOptions job.defaults).Plain job.context.dialect :=
  OutputContext.readerOptions_plain job.readsNuls

theorem reads_bare :
    ReaderOptions.Plain { job.context.readerOptions job.defaults with noHeaders := true }
      job.context.dialect :=
  ⟨rfl, job.readsNuls, rfl, rfl, rfl⟩

theorem ne_nil_of_even {rows : List Row} (even : ∀ row ∈ rows, row.length = job.plan.outputLength) :
    ∀ row ∈ rows, row ≠ [] := by
  intro row member
  rw [← List.length_pos_iff, even row member]
  exact job.wide

/-- The index column of a stored row tells which input row it stands for. -/
theorem indexCell_stored (indexed : job.tracking = .indexed) (nuls : NulPolicy) (offer : Offer) :
    job.indexCell (nuls.stored (job.entryFor added offer)) = toString offer.index :=
  NulPolicy.cell_stored (indexCell_entry indexed _) nuls

section

variable {rows before after : List Row} {record : Row} {torn : Bytes}
  (broke : job.BreaksOff nuls rows before record after torn work)

include broke

theorem BreaksOff.content_ne_nil : job.storedText nuls before ++ torn ≠ [] :=
  List.append_ne_nil_of_right_ne_nil _ broke.some_byte

variable (fit : ∀ row ∈ rows, (job.writerOptions nuls).Fits job.plan.outputLength row)

include fit

theorem BreaksOff.length_record : (nuls.stored record).length = job.plan.outputLength := by
  rw [NulPolicy.length_stored]
  exact (fit record (by rw [broke.split]; simp)).length_eq

theorem BreaksOff.record_ne_nil : nuls.stored record ≠ [] := by
  rw [← List.length_pos_iff, broke.length_record fit]
  exact job.wide

theorem BreaksOff.leading_rowText :
    torn <+: rowText job.context.dialect
      (spelling job.context.dialect ((nuls.stored record).map Text.bytes)) := by
  have leading := broke.leading
  have short := broke.short
  rw [encode_eq _ (by simpa using broke.record_ne_nil fit)] at leading short
  exact (List.prefix_concat_iff.mp leading).resolve_left short

theorem BreaksOff.length_before :
    ∀ row ∈ before.map nuls.stored, row.length = job.plan.outputLength := by
  intro row member
  obtain ⟨origin, there, rfl⟩ := List.mem_map.mp member
  rw [NulPolicy.length_stored]
  exact (fit origin (by rw [broke.split]; simp [there])).length_eq

end

section

variable {names : Row} (headed : job.plan.fieldnames = some names)

include headed

theorem length_header : (nuls.stored names).length = job.plan.outputLength := by
  rw [NulPolicy.length_stored]
  exact job.suits.length_eq names headed

theorem reads_headed : (job.context.readerOptions job.defaults).noHeaders = false := by
  simp [OutputContext.readerOptions, OutputContext.hasHeaders, context,
    EnrichOptions.outputContext, headed]

theorem clear_header (unmarked : ∀ name ∈ (nuls.stored names).head?, ¬Text.StartsWithMark name) :
    (nuls.stored names).Clear := by
  refine ⟨?_, unmarked⟩
  rw [← List.length_pos_iff, length_header headed]
  exact job.wide

theorem storedText_headed (before : List Row) :
    job.storedText nuls before =
      tableText job.context.dialect (nuls.stored names :: before.map nuls.stored) := by
  rw [storedText, header, headed]
  rfl

variable (unmarked : ∀ name ∈ (nuls.stored names).head?, ¬Text.StartsWithMark name)
  {before : List Row} (even : ∀ row ∈ before.map nuls.stored, row.length = job.plan.outputLength)
  {tail : Bytes} (held : work.file? job.path = some (job.storedText nuls before ++ tail))

include unmarked even held

/-- The header check only sees the header as it is stored. -/
theorem checkHeader_of_held :
    job.context.checkHeader job.path job.defaults work =
      if nuls.stored names = names then .ok ()
      else .error (.resume (.headerMismatch (nuls.stored names) names)) := by
  rw [storedText_headed headed] at held
  obtain ⟨reader, opened, peeked⟩ := ReaderOptions.peek_of_torn reads_bare job.apart rfl
    (clear_header headed unmarked) (ne_nil_of_even even) job.plain held rfl
  exact OutputContext.checkHeader_of_peek headed opened peeked

/-- What is found when a record of the right length stands behind the stored ones, and written rows
behind that. -/
theorem finds_of_scanned (same : nuls.stored names = names) {row : Row} {others : List Row}
    {ending : Ending} (later : ∀ other ∈ row :: others, other.length = job.plan.outputLength)
    (scanned : scanRecord job.context.dialect tail =
      some ⟨row.map Text.bytes, ending, tableText job.context.dialect others⟩) :
    job.context.Finds job.path job.defaults work (before.map nuls.stored ++ row :: others) := by
  have filled := ne_nil_of_even even
  rw [storedText_headed headed] at held
  rw [← length_header headed] at even later
  obtain ⟨reader, opened, rows⟩ := ReaderOptions.openPath_of_scanned reads_bare job.apart
    (clear_header headed unmarked) filled job.plain held even rfl later scanned
  have declared : job.context.fieldnames = some names := headed
  refine ⟨reader, opened, ?_⟩
  rw [rows, declared, same]
  rfl

end

section

variable {names : Row} (headed : job.plan.fieldnames = some names)
  (unmarked : ∀ name ∈ (nuls.stored names).head?, ¬Text.StartsWithMark name)
  {rows before after : List Row} {record : Row} {torn : Bytes}
  (broke : job.BreaksOff nuls rows before record after torn work)
  (fit : ∀ row ∈ rows, (job.writerOptions nuls).Fits job.plan.outputLength row)
  (same : nuls.stored names = names)

include headed unmarked broke fit same

/-- What is left of a record is found as it is scanned, when it is of the right length. -/
theorem BreaksOff.finds {front : Row} {last cell : String}
    (stored : nuls.stored record = front ++ [last])
    (scanned : scanRecord job.context.dialect torn =
      some ⟨(front ++ [cell]).map Text.bytes, .inputEnd, []⟩) :
    job.context.Finds job.path job.defaults work
      (before.map nuls.stored ++ [front ++ [cell]]) := by
  have length : (front ++ [cell]).length = job.plan.outputLength := by
    rw [← broke.length_record fit, stored]
    simp
  exact finds_of_scanned headed unmarked (broke.length_before fit) broke.holds.held same
    (List.forall_mem_singleton.mpr length) scanned

/-- Where the last record cannot pass for a whole one, the output cannot be read. -/
theorem BreaksOff.unreadable
    (fails : ¬∃ front last cell, job.Passes nuls record torn front last cell) :
    job.Unreadable work := by
  have even := broke.length_before fit
  rcases Source.breaks_or_scanned job.apart (broke.record_ne_nil fit) broke.some_byte
    (broke.leading_rowText fit) with breaks | ⟨front, last, cell, stored, shorter, scanned⟩
  · have filled := ne_nil_of_even even
    have held := broke.holds.held
    rw [storedText_headed headed] at held
    rw [broke.length_record fit] at breaks
    rw [← length_header headed] at breaks even
    rcases ReaderOptions.openPath_of_breaks reads_plain job.apart rfl
      (clear_header headed unmarked) filled job.plain held (reads_headed headed) even breaks with
      ⟨error, refused⟩ | ⟨reader, error, items, opened, rows⟩
    · exact .file refused
    · exact .rows opened rows
  · obtain ⟨reader, opened, rows⟩ :=
      (broke.finds headed unmarked fit same stored scanned).openPath_eq
    by_cases readable : job.tracking = .indexed →
        (Text.readCounter? (job.indexCell (front ++ [cell])).toList).isSome
    · exact absurd ⟨front, last, cell, stored, shorter, scanned, readable⟩ fails
    · obtain ⟨indexed, corrupted⟩ := Classical.not_imp.mp readable
      exact .index indexed opened rows (by simpa using corrupted)

end

theorem indexCell_last {front : Row} (length : front.length = job.plan.selected.length)
    (cell : String) : job.indexCell (front ++ [cell]) = cell := by
  simp [indexCell, Row.cell, ← length]

theorem indexCell_inner {front : Row} (inside : job.plan.selected.length < front.length)
    (cell other : String) :
    job.indexCell (front ++ [cell]) = job.indexCell (front ++ [other]) := by
  simp [indexCell, Row.cell, List.getElem?_append_left inside]

section

variable {first others : List Offer} {one : Offer} {torn : Bytes}
  (whole : (first ++ one :: others).Perm (offers (fun _ => false) 0 job.rows))

include whole

theorem index_lt_of_perm {offer : Offer} (member : offer ∈ first ++ one :: others) :
    offer.index < job.rows.length := by
  obtain ⟨position, row, there, _, rfl⟩ := mem_offers.mp (whole.subset member)
  rw [Nat.zero_add]
  exact (List.getElem?_eq_some_iff.mp there).1

variable {front : Row} {last cell : String}
  (broke : job.BreaksOff nuls ((first ++ one :: others).map (job.entryFor added))
    (first.map (job.entryFor added)) (job.entryFor added one)
    (others.map (job.entryFor added)) torn work)
  (fit : ∀ row ∈ (first ++ one :: others).map (job.entryFor added),
    (job.writerOptions nuls).Fits job.plan.outputLength row)
  (passes : job.Passes nuls (job.entryFor added one) torn front last cell)

include broke fit passes

omit whole in
theorem BreaksOff.length_front : front.length + 1 = job.plan.outputLength := by
  rw [← broke.length_record fit, passes.stored]
  simp

section

variable (indexed : job.tracking = .indexed) (bounded : job.rows.length ≤ UInt64.size)
  {index : Nat}
  (read : Text.readCounter? (job.indexCell (front ++ [cell])).toList = some index)

include indexed bounded read

/-- What is left of an index is that index or a smaller one. -/
theorem BreaksOff.index_of_passes :
    if job.CutsIndex last cell then index < one.index else index = one.index := by
  have bears : job.indexCell (nuls.stored (job.entryFor added one)) = toString one.index :=
    indexCell_stored indexed nuls one
  rw [passes.stored] at bears
  have inside : one.index < job.rows.length := index_lt_of_perm whole (by simp)
  have own := readCounter?_position bounded inside
  have length := broke.length_front fit passes
  simp only [EnrichPlan.outputLength, EnrichPlan.trackingLength, job.tracking_eq, indexed,
    Tracking.columnName?, Option.toList_some, List.length_singleton] at length
  -- The index is the last cell, which may be cut, just where no column is added behind it.
  by_cases lone : job.plan.addedLength = 0
  · have here : front.length = job.plan.selected.length := by omega
    rw [indexCell_last here] at bears read
    obtain ⟨rest, same⟩ := passes.shorter
    have leading : cell.toList <+: (toString one.index).toList := by
      rw [← bears]
      exact Text.prefix_of_bytes_append same
    by_cases cut : cell = last
    · rw [if_neg fun cuts => cuts.2.2 cut]
      rw [cut, bears, own] at read
      exact (Option.some.inj read).symm
    · rw [if_pos ⟨indexed, lone, cut⟩]
      rcases Text.readCounter?_of_prefix leading read with ⟨same, _⟩ | smaller
      · exact absurd (same.trans bears.symm) cut
      · exact smaller
  · have inner : job.plan.selected.length < front.length := by omega
    rw [if_neg fun cuts => lone cuts.2.1]
    rw [indexCell_inner inner cell last, bears, own] at read
    exact (Option.some.inj read).symm

/-- An index that was cut names a row that is there whole, if the rows stand in input order or the
cell says so. -/
theorem BreaksOff.index_mem (cuts : job.CutsIndex last cell)
    (there : (first ++ one :: others).map (job.entryFor added) = job.entries added ∨
      job.indexCell (front ++ [cell]) ∈ (first.map (job.entryFor added)).map job.indexCell) :
    index ∈ first.map Offer.index := by
  rcases there with ordered | named
  · have smaller := broke.index_of_passes whole fit passes indexed bounded read
    rw [if_pos cuts] at smaller
    have cells (offers : List Offer) : (offers.map (job.entryFor added)).map job.indexCell =
        (offers.map Offer.index).map toString := by
      rw [List.map_map, List.map_map]
      exact List.map_congr_left fun offer _ => indexCell_entry indexed _
    have indices := congrArg (List.map job.indexCell) ordered
    rw [entries_eq, cells, cells, List.map_inj_right fun _ _ => Text.toString_injective] at indices
    have ascending : ((first ++ one :: others).map Offer.index).Pairwise (· < ·) := by
      rw [indices, List.pairwise_map]
      exact pairwise_offers _ 0 job.rows
    have inside : index < job.rows.length :=
      Nat.lt_trans smaller (index_lt_of_perm whole (by simp))
    have member : index ∈ (first ++ one :: others).map Offer.index := by
      rw [indices]
      exact List.mem_map.mpr ⟨⟨0 + index, job.rows[index], none⟩,
        mem_offers.mpr ⟨index, _, List.getElem?_eq_getElem inside, rfl, rfl⟩, Nat.zero_add index⟩
    rw [List.map_append, List.map_cons] at ascending member
    rcases List.mem_append.mp member with before | behind
    · exact before
    · rcases List.mem_cons.mp behind with same | later
      · omega
      · have larger := (List.pairwise_cons.mp (List.pairwise_append.mp ascending).2.1).1 index later
        omega
  · obtain ⟨row, member, same⟩ := List.mem_map.mp named
    obtain ⟨other, here, rfl⟩ := List.mem_map.mp member
    have below : other.index < job.rows.length := index_lt_of_perm whole (by simp [here])
    have own := readCounter?_position bounded below
    rw [← same, entryFor, indexCell_entry indexed, own] at read
    exact List.mem_map.mpr ⟨other, here, Option.some.inj read⟩

end

variable {names : Row} (headed : job.plan.fieldnames = some names)
  (unmarked : ∀ name ∈ (nuls.stored names).head?, ¬Text.StartsWithMark name)
  (same : nuls.stored names = names)

include headed unmarked same

omit whole in
/-- A cut record is counted like the others. -/
theorem BreaksOff.inspect_counted (inside : first.length < job.rows.length) :
    ∃ looked, job.countedResumer.inspect job.context job.defaults work = (.ok (), looked) ∧
      looked.output.path = job.path ∧
      looked.Skips (fun position => decide (position < first.length + 1)) 0 job.rows.length := by
  have finds := broke.finds headed unmarked fit same passes.stored passes.scanned
  obtain ⟨reader, opened, rows⟩ := finds.openPath_eq
  have length : ((first.map (job.entryFor added)).map nuls.stored ++ [front ++ [cell]]).length =
      first.length + 1 := by
    simp
  have inspected := counted_inspect finds.checkHeader_eq opened rows (by rw [length]; exact inside)
  rwa [length] at inspected

/-- A cut record is skipped like the others, unless its index was cut. -/
theorem BreaksOff.inspect_indexed (indexed : job.tracking = .indexed)
    (bounded : job.rows.length ≤ UInt64.size)
    (there : job.CutsIndex last cell →
      (first ++ one :: others).map (job.entryFor added) = job.entries added ∨
        job.indexCell (front ++ [cell]) ∈ (first.map (job.entryFor added)).map job.indexCell) :
    ∃ looked, job.indexedResumer.inspect job.context job.defaults work = (.ok (), looked) ∧
      looked.output.path = job.path ∧
      looked.Skips (fun position => decide (position ∈
        (if job.CutsIndex last cell then first else first ++ [one]).map Offer.index)) 0
          job.rows.length := by
  have finds := broke.finds headed unmarked fit same passes.stored passes.scanned
  obtain ⟨reader, opened, rows⟩ := finds.openPath_eq
  obtain ⟨index, read⟩ := Option.isSome_iff_exists.mp (passes.readable indexed)
  have cells : ((first.map (job.entryFor added)).map nuls.stored).map job.indexCell =
      (first.map Offer.index).map toString := by
    rw [List.map_map, List.map_map, List.map_map]
    exact List.map_congr_left fun offer _ => indexCell_stored indexed nuls offer
  have below : ∀ other ∈ first.map Offer.index, other < job.rows.length := by
    intro other member
    obtain ⟨offer, here, rfl⟩ := List.mem_map.mp member
    exact index_lt_of_perm whole (by simp [here])
  have reads : ((first.map (job.entryFor added)).map nuls.stored ++ [front ++ [cell]]).map
      (fun row => Text.readCounter? (job.indexCell row).toList) =
        (first.map Offer.index ++ [index]).map some := by
    rw [List.map_append, List.map_append, read_indices bounded cells below, List.map_singleton,
      List.map_singleton, read]
  -- An index that was cut is one of those before it, so it adds nothing to what is done.
  have done (position : Nat) : position ∈ first.map Offer.index ++ [index] ↔
      position ∈ (if job.CutsIndex last cell then first else first ++ [one]).map Offer.index := by
    have place := broke.index_of_passes whole fit passes indexed bounded read
    by_cases cuts : job.CutsIndex last cell
    · have known := broke.index_mem whole fit passes indexed bounded read cuts (there cuts)
      rw [if_pos cuts, List.mem_append, List.mem_singleton]
      refine ⟨?_, .inl⟩
      rintro (before | rfl)
      · exact before
      · exact known
    · rw [if_neg cuts] at place
      rw [if_neg cuts, place, List.map_append, List.map_singleton]
  obtain ⟨looked, inspected, still, skips⟩ :=
    indexed_inspect indexed bounded finds.checkHeader_eq opened rows reads (by
      intro other member
      obtain ⟨offer, here, rfl⟩ := List.mem_map.mp ((done other).mp member)
      refine index_lt_of_perm whole ?_
      split at here
      · simp [here]
      · exact List.mem_append.mpr ((List.mem_append.mp here).imp_right (by simp +contextual)))
  refine ⟨looked, inspected, still, ?_⟩
  simpa only [done] using skips

/-- What is due then are the records behind the cut one, and that one as well if its index was
cut. -/
theorem BreaksOff.inspect (bounded : job.tracking = .indexed → job.rows.length ≤ UInt64.size)
    (ordered : job.tracking ≠ .indexed →
      first ++ one :: others = offers (fun _ => false) 0 job.rows)
    (there : job.CutsIndex last cell →
      (first ++ one :: others).map (job.entryFor added) = job.entries added ∨
        job.indexCell (front ++ [cell]) ∈ (first.map (job.entryFor added)).map job.indexCell) :
    ∃ done looked, job.positionResumer.inspect job.context job.defaults work = (.ok (), looked) ∧
      looked.output.path = job.path ∧ looked.Skips done 0 job.rows.length ∧
      let due := if job.CutsIndex last cell then one :: others else others
      (offers done 0 job.rows).Perm due ∧
        (job.tracking ≠ .indexed → offers done 0 job.rows = due) := by
  by_cases indexed : job.tracking = .indexed
  · obtain ⟨looked, inspected, still, skips⟩ := broke.inspect_indexed whole fit passes headed
      unmarked same indexed (bounded indexed) there
    refine ⟨_, looked, by rw [positionResumer, if_pos indexed, inspected], still, skips, ?_,
      fun plain => absurd indexed plain⟩
    refine perm_offers_of_done (whole.symm.trans (.of_eq ?_)).symm
    split <;> simp
  · have all := whole.length_eq
    rw [List.length_append, List.length_cons, length_offers] at all
    obtain ⟨looked, inspected, still, skips⟩ :=
      broke.inspect_counted fit passes headed unmarked same (by omega)
    have due : offers (fun position => decide (position < first.length + 1)) 0 job.rows =
        if job.CutsIndex last cell then one :: others else others := by
      rw [if_neg fun cuts => indexed cuts.1, offers_lt_eq_drop, ← ordered indexed]
      simp
    exact ⟨_, looked, by rw [positionResumer, if_neg indexed, inspected], still, skips,
      .of_eq due, fun _ => due⟩

end

end Job

end ResumableCsv
