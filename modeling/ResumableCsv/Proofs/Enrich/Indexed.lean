import Mathlib.Data.List.Nodup
import ResumableCsv.Proofs.Enrich.Session

/-!
Indexed runs: whatever rows earlier runs wrote, in whatever order, the index column of the output
tells which input rows they stand for. So each run is offered the other rows, and the runs together
write every input row once.
-/

namespace ResumableCsv

/-- Of the rows offered, each is written once at most. -/
def Session.WritesOnce (session : Session) (offer : Offer) (_added : Row) : Prop :=
  offer ∈ session.offered ∧ ∀ added, (offer, added) ∉ session.written

/-- A row that is to be written behind others is not written yet. -/
theorem Session.writesOnce_of_split {cells : Offer → Row} {session : Session}
    {front rest : List Offer} {offer : Offer} (offered : offer ∈ session.offered)
    (distinct : (front ++ offer :: rest).Nodup)
    (written : session.written = front.map fun offer => (offer, cells offer)) :
    session.WritesOnce offer (cells offer) := by
  refine ⟨offered, ?_⟩
  intro added member
  rw [written] at member
  obtain ⟨other, there, same⟩ := List.mem_map.mp member
  obtain ⟨rfl, _⟩ := Prod.mk.inj same
  exact (List.nodup_append.mp distinct).2.2 other there other List.mem_cons_self rfl

namespace Job

variable (job : Job)

/-- The rows a reader finds in the output, none while there is no output. -/
def Found (work : Workspace) (output : List Row) : Prop :=
  (work.file? job.path = none ∧ output = []) ∨
    ∃ reader, (job.context.readerOptions job.defaults).openPath job.path work = .ok reader ∧
      reader.rows = output.map .ok

theorem found_nothing {job : Job} {work : Workspace} {output : List Row}
    (absent : work.file? job.path = none) (found : job.Found work output) : output = [] := by
  rcases found with ⟨_, nothing⟩ | ⟨reader, opened, _⟩
  · exact nothing
  · obtain ⟨input, failed, _⟩ := Outcome.do_eq_ok_iff.mp opened
    simp [Workspace.openInput, job.plain.named, Workspace.read, absent, Outcome.mapError_error,
      Except.map] at failed

theorem Found.unique {job : Job} {work : Workspace} {output other : List Row}
    (found : job.Found work output) (again : job.Found work other) : output = other := by
  rcases found with ⟨absent, rfl⟩ | ⟨reader, opened, rows⟩
  · exact (found_nothing absent again).symm
  · rcases again with ⟨absent, rfl⟩ | ⟨reader', opened', rows'⟩
    · exact found_nothing absent (.inr ⟨reader, opened, rows⟩)
    · cases opened.symm.trans opened'
      exact List.map_injective_iff.mpr (fun _ _ => Except.ok.inj) (rows.symm.trans rows')

/-- The index cell of an output row. -/
def indexCell (row : Row) : String := row.cell job.plan.selected.length

/-- Each row of an output names an input row and has the selected cells of that row. -/
def Faithful (output : List Row) : Prop :=
  ∀ row ∈ output, ∃ (index : Nat) (input : Row), job.rows[index]? = some input ∧
    job.indexCell row = toString index ∧
    row.take job.plan.selected.length = job.plan.selected.map input.cell

def indexedResumer : Resumer := .indexed { output := job.output }

/-- Different input rows with cells added to them. -/
structure Logged (log : List (Offer × Row)) : Prop where
  offered : ∀ entry ∈ log, job.rows[entry.1.index]? = some entry.1.row
  sized : ∀ entry ∈ log, entry.2.length = job.plan.addedLength
  distinct : (log.map (·.1.index)).Nodup

variable {job} {log : List (Offer × Row)} {work : Workspace}

theorem indexCell_entry (indexed : job.tracking = .indexed) (written : Offer × Row) :
    job.indexCell (job.entry written) = toString written.1.index := by
  simp [indexCell, entry, record, mark, indexed, Row.cell]

theorem take_entry (written : Offer × Row) :
    (job.entry written).take job.plan.selected.length =
      job.plan.selected.map written.1.row.cell := by
  have length : (job.plan.selected.map written.1.row.cell).length = job.plan.selected.length := by
    simp
  rw [entry, record, List.append_assoc, ← length, List.take_left]

theorem Logged.faithful (indexed : job.tracking = .indexed) (logged : job.Logged log) :
    job.Faithful (log.map job.entry) := by
  intro row member
  obtain ⟨written, there, rfl⟩ := List.mem_map.mp member
  exact ⟨written.1.index, written.1.row, logged.offered written there,
    indexCell_entry indexed written, take_entry written⟩

theorem Logged.legible (headed : job.plan.fieldnames.isSome) (single : job.tracking ≠ .paged)
    (logged : job.Logged log) :
    Legible job.plan.outputLength (job.header ++ log.map job.entry) := by
  obtain ⟨names, fieldnames⟩ := Option.isSome_iff_exists.mp headed
  apply job.legible_append
  · intro row member
    obtain ⟨written, known, rfl⟩ := List.mem_map.mp member
    exact (length_entry single written).mpr (logged.sized written known)
  · intro headless
    simp [Job.header, fieldnames] at headless

theorem index_lt (logged : job.Logged log) :
    ∀ index ∈ log.map (·.1.index), index < job.rows.length := by
  intro index member
  obtain ⟨written, there, rfl⟩ := List.mem_map.mp member
  exact (List.getElem?_eq_some_iff.mp (logged.offered written there)).1

theorem indexColumn_eq (indexed : job.tracking = .indexed) :
    job.context.indexColumn = some job.plan.selected.length := by
  simp [context, EnrichOptions.outputContext, job.tracking_eq, indexed]

/-- A resumer that has looked at an output takes the input rows for done whose indices it read. -/
theorem indexed_inspect (indexed : job.tracking = .indexed)
    (bounded : job.rows.length ≤ UInt64.size)
    (checked : job.context.checkHeader job.path job.defaults work = .ok ()) {reader : Reader}
    (opened : (job.context.readerOptions job.defaults).openPath job.path work = .ok reader)
    {records : List Row} (rows : reader.rows = records.map .ok) {indices : List Nat}
    (read : records.map (fun row => Text.readCounter? (job.indexCell row).toList) =
      indices.map some)
    (inside : ∀ index ∈ indices, index < job.rows.length) :
    ∃ looked, job.indexedResumer.inspect job.context job.defaults work = (.ok (), looked) ∧
      looked.output.path = job.path ∧
      looked.Skips (fun index => decide (index ∈ indices)) 0 job.rows.length := by
  have column := indexColumn_eq indexed
  have collected := IndexedResumer.collect_of_read read 0 .empty
  refine ⟨.indexed
    { output := job.output.tellAll .outputRowRead records
      done := .ofList (indices.map UInt64.ofNat) }, ?_,
    ResumableOutput.path_tellAll _ _ _, ?_⟩
  · rw [← rows] at collected
    have here : job.output.path = job.path := rfl
    simp only [indexedResumer, Resumer.inspect, IndexedResumer.inspect, here, checked, column,
      opened, Outcome.ok_bind, pure, Except.pure, collected]
    rfl
  · intro position below
    rw [Bool.eq_iff_iff, decide_eq_true_iff]
    exact RangeSet.contains_ofNat
      (fun index member => Nat.lt_of_lt_of_le (inside index member) bounded) (by omega)

/-- The position of an input row is read back from its text. -/
theorem readCounter?_position (bounded : job.rows.length ≤ UInt64.size) {index : Nat}
    (inside : index < job.rows.length) :
    Text.readCounter? (toString index).toList = some index := by
  apply Text.readCounter?_toString
  rw [Text.maxCounter]
  omega

/-- Indices that are positions of the input are read from their cells. -/
theorem read_indices (bounded : job.rows.length ≤ UInt64.size) {records : List Row}
    {indices : List Nat} (cells : records.map job.indexCell = indices.map toString)
    (inside : ∀ index ∈ indices, index < job.rows.length) :
    records.map (fun row => Text.readCounter? (job.indexCell row).toList) = indices.map some := by
  have read := congrArg (List.map fun cell : String => Text.readCounter? cell.toList) cells
  rw [List.map_map, List.map_map] at read
  refine Eq.trans read (List.map_congr_left fun index member => ?_)
  exact readCounter?_position bounded (inside index member)

theorem Logged.indices_eq (indexed : job.tracking = .indexed) (log : List (Offer × Row)) :
    (log.map job.entry).map job.indexCell = (log.map (·.1.index)).map toString := by
  rw [List.map_map, List.map_map]
  apply List.map_congr_left
  intro written _
  exact indexCell_entry indexed written

theorem Logged.inspect (indexed : job.tracking = .indexed) (headed : job.plan.fieldnames.isSome)
    (bounded : job.rows.length ≤ UInt64.size) (logged : job.Logged log)
    (some_row : job.header ++ log.map job.entry ≠ [])
    (held : work.file? job.path = some (job.text (log.map job.entry))) :
    ∃ looked, job.indexedResumer.inspect job.context job.defaults work = (.ok (), looked) ∧
      looked.output.path = job.path ∧
      looked.Skips (fun index => decide (index ∈ log.map (·.1.index))) 0 job.rows.length := by
  have single : job.tracking ≠ .paged := by
    rw [indexed]
    decide
  obtain ⟨checked, reader, opened, rows⟩ :=
    job.reads_back some_row (logged.legible headed single) held
  exact indexed_inspect indexed bounded checked opened rows
    (read_indices bounded (Logged.indices_eq indexed log) (index_lt logged)) (index_lt logged)

/-- The positions of some log, as a resumer takes them for done. -/
def doneIn (log : List (Offer × Row)) (index : Nat) : Bool := decide (index ∈ log.map (·.1.index))

/-- Rows that are written once at most are written to different input rows. -/
theorem Sound.written_once {nuls : NulPolicy} {done : Nat → Bool} {before : Bytes}
    {allowed : Session → Offer → Row → Prop}
    (once : ∀ session offer added, allowed session offer added → session.WritesOnce offer added)
    {enricher : Enricher} {session : Session}
    (sound : job.Sound nuls done before { enricher := enricher, work := work })
    (reached : Session.Reaches allowed { enricher := enricher, work := work } session) :
    (∀ written ∈ session.written, written.1 ∈ session.offered) ∧
      (session.written.map Prod.fst).Nodup := by
  have offered : ∀ session offer added, allowed session offer added →
      offer ∈ session.offered := fun _ _ _ permitted => (once _ _ _ permitted).1
  induction reached with
  | start => simp
  | @next session _ ih =>
    obtain ⟨known, distinct⟩ := ih
    rw [Session.written_next]
    exact ⟨fun written member => (Session.offered_next session).subset (known written member),
      distinct⟩
  | flush _ ih => exact ih
  | @write session earlier offer added permitted ih =>
    obtain ⟨known, distinct⟩ := ih
    obtain ⟨here, unwritten⟩ := once _ _ _ permitted
    have still := sound.reaches offered earlier
    by_cases fits : (job.writerOptions nuls).Fits job.plan.outputLength (job.entry (offer, added))
    · obtain ⟨_, same, written, _⟩ := still.write_accepted here fits
      rw [same, written, List.map_append]
      refine ⟨List.forall_mem_append.mpr ⟨known, List.forall_mem_singleton.mpr here⟩,
        List.Nodup.append distinct (List.nodup_singleton _) ?_⟩
      intro other old new
      obtain ⟨entry, member, rfl⟩ := List.mem_map.mp old
      obtain rfl : entry.1 = offer := by simpa using new
      exact unwritten entry.2 member
    · rw [still.write_refused here fits]
      exact ⟨known, distinct⟩

/-- What a run accepts are input rows that were not written before, each of them once. -/
theorem Logged.append (single : job.tracking ≠ .paged) (logged : job.Logged log)
    {enricher : Enricher} {session : Session}
    (sound : job.Sound .keep (doneIn log) (job.text (log.map job.entry))
      { enricher := enricher, work := work })
    (reached : Session.Reaches Session.WritesOnce { enricher := enricher, work := work } session) :
    job.Logged (log ++ session.written) := by
  have still := sound.reaches (fun _ _ _ permitted => permitted.1) reached
  obtain ⟨known, distinct⟩ := sound.written_once (fun _ _ _ permitted => permitted) reached
  have origin (entry : Offer × Row) (member : entry ∈ session.written) :=
    still.of_offered (known entry member)
  refine ⟨?_, ?_, ?_⟩
  · intro entry member
    rcases List.mem_append.mp member with old | new
    · exact logged.offered entry old
    · exact (origin entry new).1
  · intro entry member
    rcases List.mem_append.mp member with old | new
    · exact logged.sized entry old
    · exact (length_entry single entry).mp (still.fit entry new).length_eq
  · rw [List.map_append]
    refine List.Nodup.append logged.distinct ?_ ?_
    · have indices : session.written.map (·.1.index) =
          (session.written.map Prod.fst).map Offer.index := by
        rw [List.map_map]
        rfl
      rw [indices]
      refine distinct.map_on ?_
      intro one first other second same
      obtain ⟨entry, member, rfl⟩ := List.mem_map.mp first
      obtain ⟨entry', member', rfl⟩ := List.mem_map.mp second
      exact still.unique_of_index (known entry member) (known entry' member') same
    · intro index old new
      obtain ⟨entry, member, rfl⟩ := List.mem_map.mp new
      have fresh := (origin entry member).2.1
      rw [doneIn, decide_eq_false_iff_not] at fresh
      exact fresh old

theorem Logged.found (headed : job.plan.fieldnames.isSome) (single : job.tracking ≠ .paged)
    (logged : job.Logged log) (stands : job.Stands work (log.map job.entry)) :
    job.Found work (log.map job.entry) := by
  generalize same : log.map job.entry = records at stands
  cases stands with
  | vacant home absent => exact .inl ⟨absent, rfl⟩
  | written holds =>
    obtain ⟨names, fieldnames⟩ := Option.isSome_iff_exists.mp headed
    have some_row : job.header ++ records ≠ [] := by simp [header, fieldnames]
    have legible := logged.legible headed single
    rw [same] at legible
    exact .inr (job.reads_back some_row legible holds.held).2

section

variable (indexed : job.tracking = .indexed) (headed : job.plan.fieldnames.isSome)
  (bounded : job.rows.length ≤ UInt64.size)

include indexed headed bounded

theorem Logged.begin (logged : job.Logged log) (stands : job.Stands work (log.map job.entry)) :
    ∃ enricher opened, job.resume job.indexedResumer work = (.ok enricher, opened) ∧
      job.Sound .keep (doneIn log) (job.text (log.map job.entry))
        { enricher := enricher, work := opened } := by
  refine stands.begin rfl ?_ (logged.inspect indexed headed bounded)
  intro nothing position _
  have empty : log = [] := List.map_eq_nil_iff.mp nothing
  simp [doneIn, empty, RangeSet.contains, RangeSet.empty]

/-- Between runs the output stands at different input rows, each with cells added to it. -/
theorem Leaves.logged (left : job.Leaves job.indexedResumer Session.WritesOnce work) :
    ∃ log, job.Logged log ∧ job.Stands work (log.map job.entry) := by
  have single : job.tracking ≠ .paged := by
    rw [indexed]
    decide
  induction left with
  | nothing home absent => exact ⟨[], ⟨by simp, by simp, by simp⟩, .vacant home absent⟩
  | run _ ran ih =>
    obtain ⟨log, logged, stands⟩ := ih
    obtain ⟨enricher, opened, resumed, sound⟩ := logged.begin indexed headed bounded stands
    obtain ⟨_, _, again, reached⟩ := ran
    cases resumed.symm.trans again
    have still := sound.reaches (fun _ _ _ permitted => permitted.1) reached
    refine ⟨_, logged.append single sound reached, ?_⟩
    rw [List.map_append]
    exact .written still.close_keep

end

theorem doneIn_eq (indexed : job.tracking = .indexed) (log : List (Offer × Row)) :
    doneIn log = fun index =>
      ((log.map job.entry).map job.indexCell).contains (toString index) := by
  funext index
  rw [Logged.indices_eq indexed, Bool.eq_iff_iff, doneIn, decide_eq_true_iff, List.contains_iff_mem]
  constructor
  · intro there
    exact List.mem_map.mpr ⟨index, there, rfl⟩
  · intro found
    obtain ⟨other, there, same⟩ := List.mem_map.mp found
    exact Text.toString_injective same ▸ there

/-- Once all that was due is written, every position is there once. -/
theorem Logged.perm_range (logged : job.Logged log)
    (complete : ∀ offer ∈ offers (fun _ => false) 0 job.rows, offer.index ∈ log.map (·.1.index)) :
    (log.map (·.1.index)).Perm (List.range job.rows.length) := by
  rw [List.perm_ext_iff_of_nodup logged.distinct List.nodup_range]
  intro index
  rw [List.mem_range]
  constructor
  · exact index_lt logged index
  · intro inside
    have due : (⟨index, job.rows[index], none⟩ : Offer) ∈ offers (fun _ => false) 0 job.rows :=
      mem_offers.mpr ⟨index, job.rows[index], List.getElem?_eq_getElem inside, rfl, by
        rw [Nat.zero_add]⟩
    exact complete _ due

/-- Whatever runs came before, each of which wrote some of the rows it was offered in some order,
the output holds different input rows, and the next run is offered just the others, in input order
and each with its position. Every row that is offered is accepted with as many cells as there are
columns to add, and stands in the output when the run ends; so a run can write all of them, in any
order, and once it has, the index column is a permutation of all positions. Positions are numbers of
64 bits, which is what can be read back from the index column. The output path is that of a file,
not the dash of the console. -/
theorem indexed_runs_lose_and_repeat_nothing (job : Job) (indexed : job.tracking = .indexed)
    (headed : job.plan.fieldnames.isSome) (bounded : job.rows.length ≤ UInt64.size)
    {work : Workspace} (left : job.Leaves job.indexedResumer Session.WritesOnce work) :
    ∃ output, job.Found work output ∧ job.Faithful output ∧ (output.map job.indexCell).Nodup ∧
      (∃ enricher opened, job.resume job.indexedResumer work = (.ok enricher, opened)) ∧
      let due := offers (fun index => (output.map job.indexCell).contains (toString index)) 0
        job.rows
      (∀ session, job.Run job.indexedResumer Session.WritesOnce work session →
        session.offered <+: due ∧
        session.offered.Pairwise (fun one other => one.index < other.index) ∧
        (session.enricher.next session.work).1 = (due[session.offered.length]?).map .ok ∧
        (∀ offer added, session.WritesOnce offer added → added.length = job.plan.addedLength →
          (session.enricher.writeRow offer.index offer.row added session.work).1 = .ok () ∧
            (session.write offer added).written = session.written ++ [(offer, added)]) ∧
        job.Found session.close (output ++ session.written.map job.entry) ∧
        job.Faithful (output ++ session.written.map job.entry) ∧
        ((∀ offer ∈ due, ∃ added, (offer, added) ∈ session.written) →
          ((output ++ session.written.map job.entry).map job.indexCell).Perm
            ((List.range job.rows.length).map toString))) ∧
      ∀ (order : List Offer) (cells : Offer → Row), order.Perm due →
        (∀ offer ∈ order, (cells offer).length = job.plan.addedLength) →
          ∃ session, job.Run job.indexedResumer Session.WritesOnce work session ∧
            (session.enricher.next session.work).1 = none ∧
            session.written = order.map fun offer => (offer, cells offer) := by
  have single : job.tracking ≠ .paged := by
    rw [indexed]
    decide
  obtain ⟨log, logged, stands⟩ := left.logged indexed headed bounded
  obtain ⟨enricher, opened, resumed, sound⟩ := logged.begin indexed headed bounded stands
  refine ⟨log.map job.entry, logged.found headed single stands, logged.faithful indexed, ?_,
    ⟨enricher, opened, resumed⟩, ?_⟩
  · rw [Logged.indices_eq indexed]
    exact logged.distinct.map fun _ _ => Text.toString_injective
  intro due
  have same : due = offers (doneIn log) 0 job.rows := by rw [doneIn_eq indexed]
  refine ⟨?_, ?_⟩
  · rintro session ⟨_, _, again, reached⟩
    cases resumed.symm.trans again
    have still := sound.reaches (fun _ _ _ permitted => permitted.1) reached
    have ascending := (pairwise_offers (doneIn log) 0 job.rows).sublist still.offered_prefix.sublist
    have whole := logged.append single sound reached
    have closed := still.close_keep
    rw [← List.map_append] at closed ⊢
    refine ⟨same ▸ still.offered_prefix, ascending, same ▸ still.next_eq, ?_,
      whole.found headed single (.written closed), whole.faithful indexed, ?_⟩
    · intro offer added permitted length
      obtain ⟨accepted, _, written, _⟩ := still.write_accepted permitted.1
        (fits_keep ((length_entry single (offer, added)).mpr length))
      exact ⟨accepted, written⟩
    · intro complete
      rw [Logged.indices_eq indexed]
      refine (whole.perm_range ?_).map toString
      intro offer member
      obtain ⟨index, row, there, _, rfl⟩ := mem_offers.mp member
      rw [List.map_append, List.mem_append]
      by_cases known : index ∈ log.map (·.1.index)
      · exact .inl (by simpa using known)
      · have fresh : (⟨0 + index, row, none⟩ : Offer) ∈ due := by
          rw [same]
          refine mem_offers.mpr ⟨index, row, there, ?_, rfl⟩
          simpa [doneIn] using known
        obtain ⟨added, written⟩ := complete _ fresh
        exact .inr (List.mem_map.mpr ⟨_, written, rfl⟩)
  · intro order cells reordered sized
    rw [same] at reordered
    have distinct : order.Nodup := reordered.nodup_iff.mpr (nodup_offers _ 0 job.rows)
    obtain ⟨last, reached, ended, _, written⟩ := Sound.completes .start sound cells reordered
      (fun session front offer rest offered split => Session.writesOnce_of_split
        (by simp [offered, ← reordered.mem_iff, split]) (split ▸ distinct))
      (fun offer member => fits_keep ((length_entry single _).mpr (sized offer member))) rfl
    exact ⟨last, ⟨enricher, opened, resumed, reached⟩, ended, written⟩

/-- A run that wrote the second row first and was broken off, and the run after it. -/
theorem indexed_runs_lose_and_repeat_nothing_sample :
    ∃ first second,
      (sample .indexed).Run (sample .indexed).indexedResumer Session.WritesOnce {} first ∧
      first.written = [(⟨1, ["bob"], none⟩, ["new"])] ∧
      (sample .indexed).Run (sample .indexed).indexedResumer Session.WritesOnce first.close
        second ∧
      second.offered = [⟨0, ["ann"], none⟩] ∧
      (second.enricher.next second.work).1 = none ∧
      (sample .indexed).Found second.close [["bob", "1", "new"], ["ann", "0", "new"]] := by
  have none_yet : (sample .indexed).Leaves (sample .indexed).indexedResumer Session.WritesOnce {} :=
    .nothing (sample_home .indexed) rfl
  obtain ⟨output, found, _, _, ⟨enricher, opened, resumed⟩, runs, _⟩ :=
    indexed_runs_lose_and_repeat_nothing (sample .indexed) rfl rfl (by decide) none_yet
  cases found_nothing rfl found
  let start : Session := { enricher := enricher, work := opened }
  have ran {session : Session} (reached : Session.Reaches Session.WritesOnce start session) :=
    runs session ⟨enricher, opened, resumed, reached⟩
  have one : start.next.offered = [⟨0, ["ann"], none⟩] :=
    Session.offered_next_of_offer (ran .start).2.2.1
  have two : start.next.next.offered = [⟨0, ["ann"], none⟩, ⟨1, ["bob"], none⟩] := by
    have step := (ran (.next .start)).2.2.1
    rw [one] at step
    rw [Session.offered_next_of_offer step, one]
    rfl
  have permitted : start.next.next.WritesOnce ⟨1, ["bob"], none⟩ ["new"] :=
    ⟨by simp [two], by simp [Session.written_next, start]⟩
  let first := start.next.next.write ⟨1, ["bob"], none⟩ ["new"]
  have reached : Session.Reaches Session.WritesOnce start first :=
    .write (.next (.next .start)) _ _ permitted
  have written : first.written = [(⟨1, ["bob"], none⟩, ["new"])] := by
    have grows := ((ran (.next (.next .start))).2.2.2.1 _ _ permitted rfl).2
    rwa [Session.written_next, Session.written_next] at grows
  have stopped := (ran reached).2.2.2.2.1
  rw [written] at stopped
  obtain ⟨output, found, _, _, _, runs, complete⟩ :=
    indexed_runs_lose_and_repeat_nothing (sample .indexed) rfl rfl (by decide)
      (none_yet.run ⟨enricher, opened, resumed, reached⟩)
  obtain rfl := found.unique stopped
  obtain ⟨second, again, ended, all⟩ := complete _ (fun _ => ["new"]) (.refl _) fun _ _ => rfl
  obtain ⟨offered, _, next, _, final, _⟩ := runs second again
  refine ⟨first, second, ⟨enricher, opened, resumed, reached⟩, written, again, ?_, ended, ?_⟩
  · rw [next, Option.map_eq_none_iff, List.getElem?_eq_none_iff] at ended
    exact offered.eq_of_length_le ended
  · rw [all] at final
    exact final

end Job

end ResumableCsv
