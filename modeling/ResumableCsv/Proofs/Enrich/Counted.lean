import ResumableCsv.Proofs.Enrich.Session

/-!
Runs that go by the number of rows: as long as rows are written in the order they are offered, the
output is always the beginning of what one run would have written, and each run goes on where the
one before it stopped.
-/

namespace ResumableCsv

theorem prefix_concat_of_getElem? {α : Type} {items whole : List α} {next : α}
    (leading : items <+: whole) (found : whole[items.length]? = some next) :
    items ++ [next] <+: whole := by
  obtain ⟨rest, rfl⟩ := leading
  rw [List.getElem?_append_right (Nat.le_refl _), Nat.sub_self] at found
  cases rest with
  | nil => cases found
  | cons first more =>
    cases found
    exact ⟨more, by simp⟩

/-- Rows are written in the order they were offered, with the cells that belong to them. -/
def Session.WritesInTurn (added : Nat → Row → Row) (session : Session) (offer : Offer)
    (cells : Row) : Prop :=
  session.offered[session.written.length]? = some offer ∧ cells = added offer.index offer.row

/-- A row is in turn once those that were offered before it are written. -/
theorem Session.writesInTurn_of_split {added : Nat → Row → Row} {session : Session}
    {front rest : List Offer} {offer : Offer} (offered : session.offered = front ++ offer :: rest)
    (written : session.written = front.map fun offer => (offer, added offer.index offer.row)) :
    session.WritesInTurn added offer (added offer.index offer.row) := by
  refine ⟨?_, rfl⟩
  rw [offered, written, List.length_map, List.getElem?_append_right (Nat.le_refl _), Nat.sub_self]
  rfl

namespace Job

variable (job : Job)

def countedResumer : Resumer := .rowCount { output := job.output }

/-- The output rows of all input rows. -/
def outputs (added : Nat → Row → Row) : List Row :=
  job.rows.zipIdx.map fun (row, index) => job.record row none (added index row)

variable {job} {added : Nat → Row → Row} {work : Workspace} {count : Nat}

theorem length_outputs : (job.outputs added).length = job.rows.length := by
  simp [outputs]

/-- What the first rows written look like, header and all. -/
structure Expects (job : Job) (added : Nat → Row → Row) : Prop where
  plain : job.tracking = .plain
  sized : ∀ index row, job.rows[index]? = some row →
    (added index row).length = job.plan.addedLength
  unmarked : job.header = [] → ∀ row ∈ (job.outputs added).head?, ∀ cell ∈ row.head?,
    ¬Text.StartsWithMark cell

theorem Expects.single (expects : job.Expects added) : job.tracking ≠ .paged := by
  rw [expects.plain]
  decide

theorem Expects.length_of_mem (expects : job.Expects added) {row : Row}
    (member : row ∈ job.outputs added) : row.length = job.plan.outputLength := by
  obtain ⟨⟨input, index⟩, there, rfl⟩ := List.mem_map.mp member
  have found := List.mem_zipIdx_iff_getElem?.mp there
  have fits := (length_entry expects.single (⟨index, input, none⟩, added index input)).mpr
    (expects.sized index input found)
  simpa [entry, mark, expects.plain] using fits

/-- What belongs to an input row can be stored when NULs are kept. -/
theorem Expects.fits (expects : job.Expects added) {offer : Offer}
    (there : job.rows[offer.index]? = some offer.row) :
    (job.writerOptions .keep).Fits job.plan.outputLength
      (job.entry (offer, added offer.index offer.row)) :=
  fits_keep ((length_entry expects.single _).mpr (expects.sized _ _ there))

theorem Expects.legible (expects : job.Expects added) (count : Nat) :
    Legible job.plan.outputLength (job.header ++ (job.outputs added).take count) := by
  apply job.legible_append
  · intro row member
    exact expects.length_of_mem (List.mem_of_mem_take member)
  · intro headless row first
    apply expects.unmarked headless
    rw [List.head?_take] at first
    split at first
    · cases first
    · exact first

/-- A resumer that has looked at an output skips as many input rows as it holds. -/
theorem counted_inspect (checked : job.context.checkHeader job.path job.defaults work = .ok ())
    {reader : Reader}
    (opened : (job.context.readerOptions job.defaults).openPath job.path work = .ok reader)
    {records : List Row} (rows : reader.rows = records.map .ok)
    (inside : records.length ≤ job.rows.length) :
    ∃ looked, job.countedResumer.inspect job.context job.defaults work = (.ok (), looked) ∧
      looked.output.path = job.path ∧
      looked.Skips (fun position => decide (position < records.length)) 0 job.rows.length := by
  refine ⟨.rowCount
    { output := job.output.tellAll .outputRowRead records
      rowCount := records.length }, ?_, ResumableOutput.path_tellAll _ _ _, inside, by simp,
    fun _ => rfl⟩
  have inspected : RowCountResumer.inspect job.context job.defaults work { output := job.output } =
      (.ok (), _) :=
    RowCountResumer.inspect_of_rows checked opened rows
  rw [countedResumer, Resumer.inspect, inspected]

theorem Expects.inspect (expects : job.Expects added) (inside : count ≤ job.rows.length)
    (some_row : job.header ++ (job.outputs added).take count ≠ [])
    (held : work.file? job.path = some (job.text ((job.outputs added).take count))) :
    ∃ looked, job.countedResumer.inspect job.context job.defaults work = (.ok (), looked) ∧
      looked.output.path = job.path ∧
      looked.Skips (fun position => decide (position < count)) 0 job.rows.length := by
  obtain ⟨checked, reader, opened, rows⟩ := job.reads_back some_row (expects.legible count) held
  have length : ((job.outputs added).take count).length = count := by
    rw [List.length_take, length_outputs]
    omega
  have inspected := counted_inspect checked opened rows (by rw [length]; exact inside)
  rw [length] at inspected
  exact inspected

/-- What is due behind the first rows. -/
def rest (job : Job) (count : Nat) : List Offer :=
  (job.rows.zipIdx.drop count).map fun (row, index) => ⟨index, row, none⟩

theorem offers_eq_rest (job : Job) (count : Nat) :
    offers (fun position => decide (position < count)) 0 job.rows = job.rest count := by
  rw [offers_lt, Nat.sub_zero, rest]

theorem length_rest (job : Job) (count : Nat) :
    (job.rest count).length = job.rows.length - count := by
  simp [rest]

theorem entries_rest (expects : job.Expects added) (count : Nat) :
    ((job.rest count).map fun offer => job.entry (offer, added offer.index offer.row)) =
      (job.outputs added).drop count := by
  rw [rest, outputs, List.map_map, ← List.map_drop]
  apply List.map_congr_left
  rintro ⟨row, index⟩ _
  simp [entry, mark, expects.plain]

theorem Expects.begin (expects : job.Expects added) (inside : count ≤ job.rows.length)
    (stands : job.Stands work ((job.outputs added).take count)) :
    ∃ enricher opened, job.resume job.countedResumer work = (.ok enricher, opened) ∧
      job.Sound .keep (fun position => decide (position < count))
        (job.text ((job.outputs added).take count)) { enricher := enricher, work := opened } := by
  refine stands.begin rfl ?_ (expects.inspect inside)
  intro nothing
  have none_yet : count = 0 := by
    have length := congrArg List.length nothing
    rw [List.length_take, length_outputs, List.length_nil] at length
    omega
  subst none_yet
  exact ⟨Nat.zero_le _, rfl, fun _ => rfl⟩

/-- What is written in turn is the beginning of what was offered. -/
theorem Sound.written_prefix {nuls : NulPolicy} {done : Nat → Bool} {before : Bytes}
    {enricher : Enricher} {session : Session}
    (sound : job.Sound nuls done before { enricher := enricher, work := work })
    (reached : Session.Reaches (Session.WritesInTurn added) { enricher := enricher, work := work }
      session) :
    session.written <+: session.offered.map fun offer => (offer, added offer.index offer.row) := by
  have offered : ∀ session offer cells, Session.WritesInTurn added session offer cells →
      offer ∈ session.offered := fun _ _ _ permitted => List.mem_of_getElem? permitted.1
  induction reached with
  | start => exact List.prefix_refl _
  | @next session _ ih =>
    rw [Session.written_next]
    exact ih.trans ((Session.offered_next session).map _)
  | flush _ ih => exact ih
  | @write session earlier offer cells permitted ih =>
    have still := sound.reaches offered earlier
    obtain ⟨turn, rfl⟩ := permitted
    have here := List.mem_of_getElem? turn
    by_cases fits : (job.writerOptions nuls).Fits job.plan.outputLength
        (job.entry (offer, added offer.index offer.row))
    · obtain ⟨_, same, written, _⟩ := still.write_accepted here fits
      rw [same, written]
      exact prefix_concat_of_getElem? ih (by simp [turn])
    · rw [still.write_refused here fits]
      exact ih

/-- A run goes on where the output ends, and each row that is in turn is accepted. -/
theorem Expects.run (expects : job.Expects added) (inside : count ≤ job.rows.length)
    (stands : job.Stands work ((job.outputs added).take count)) {session : Session}
    (ran : job.Run job.countedResumer (Session.WritesInTurn added) work session) :
    session.offered <+: job.rest count ∧
      (session.enricher.next session.work).1 =
        ((job.rest count)[session.offered.length]?).map .ok ∧
      (∀ offer cells, session.WritesInTurn added offer cells →
        (session.enricher.writeRow offer.index offer.row cells session.work).1 = .ok () ∧
          (session.write offer cells).written = session.written ++ [(offer, cells)]) ∧
      count + session.written.length ≤ job.rows.length ∧
      session.close.Holds job.path
        (job.text ((job.outputs added).take (count + session.written.length))) := by
  obtain ⟨enricher, opened, resumed, sound⟩ := expects.begin inside stands
  obtain ⟨_, _, again, reached⟩ := ran
  cases resumed.symm.trans again
  have still := sound.reaches
    (fun _ _ _ permitted => List.mem_of_getElem? permitted.1) reached
  have written := sound.written_prefix reached
  have due := written.trans (still.offered_prefix.map _)
  rw [offers_eq_rest] at due
  have bound := due.length_le
  rw [List.length_map, length_rest] at bound
  have closed := still.close_keep
  have entries := due.map job.entry
  rw [List.map_map] at entries
  have behind : session.written.map job.entry <+: (job.outputs added).drop count := by
    rw [← entries_rest expects]
    exact entries
  have whole : (job.outputs added).take count ++ session.written.map job.entry =
      (job.outputs added).take (count + session.written.length) := by
    rw [List.prefix_iff_eq_take.mp behind, List.length_map, List.take_add]
  rw [whole] at closed
  rw [← offers_eq_rest]
  refine ⟨still.offered_prefix, still.next_eq, ?_, by omega, closed⟩
  rintro offer cells ⟨turn, rfl⟩
  have here := List.mem_of_getElem? turn
  obtain ⟨accepted, _, grows, _⟩ :=
    still.write_accepted here (expects.fits (still.of_offered here).1)
  exact ⟨accepted, grows⟩

/-- Between runs the output stands at the first output rows. -/
theorem Expects.leaves (expects : job.Expects added)
    (left : job.Leaves job.countedResumer (Session.WritesInTurn added) work) :
    ∃ count, count ≤ job.rows.length ∧ job.Stands work ((job.outputs added).take count) := by
  induction left with
  | nothing home absent => exact ⟨0, Nat.zero_le _, .vacant home absent⟩
  | run _ ran ih =>
    obtain ⟨count, inside, stands⟩ := ih
    obtain ⟨_, _, _, bound, closed⟩ := expects.run inside stands ran
    exact ⟨_, bound, .written closed⟩

/-- A run that writes the rows it is offered in turn, to the last one. -/
def Completes (job : Job) (added : Nat → Row → Row) (work : Workspace) (session : Session) : Prop :=
  job.Run job.countedResumer (Session.WritesInTurn added) work session ∧
    (session.enricher.next session.work).1 = none ∧
    session.written.length = session.offered.length

/-- There is such a run wherever the output ends. -/
theorem Expects.exists_completes (expects : job.Expects added) (inside : count ≤ job.rows.length)
    (stands : job.Stands work ((job.outputs added).take count)) :
    ∃ session, job.Completes added work session := by
  obtain ⟨enricher, opened, resumed, sound⟩ := expects.begin inside stands
  have fit : ∀ offer ∈ offers (fun position => decide (position < count)) 0 job.rows,
      (job.writerOptions .keep).Fits job.plan.outputLength
        (job.entry (offer, added offer.index offer.row)) := by
    intro offer member
    obtain ⟨position, row, there, _, rfl⟩ := mem_offers.mp member
    exact expects.fits (by rw [Nat.zero_add]; exact there)
  obtain ⟨last, reached, ended, offered, written⟩ := Sound.completes .start sound _ (.refl _)
    (fun _ _ _ _ offered split => Session.writesInTurn_of_split (offered.trans split)) fit rfl
  refine ⟨last, ⟨enricher, opened, resumed, reached⟩, ended, ?_⟩
  rw [written, offered, List.length_map]

theorem Expects.complete (expects : job.Expects added) (inside : count ≤ job.rows.length)
    (stands : job.Stands work ((job.outputs added).take count)) {session : Session}
    (completes : job.Completes added work session) :
    session.close.Holds job.path (job.text ((job.outputs added).take job.rows.length)) := by
  obtain ⟨ran, ended, all⟩ := completes
  obtain ⟨offered, next, _, bound, closed⟩ := expects.run inside stands ran
  rw [next, Option.map_eq_none_iff, List.getElem?_eq_none_iff, length_rest] at ended
  have last : count + session.written.length = job.rows.length := by omega
  rw [last] at closed
  exact closed

/-- Whatever runs came before, the output is the header and the output rows of the first input rows;
the next run is offered just the other rows, each is accepted when it is its turn, and what is
written stands behind what was there. So a run can come to the end; once one has, the file is byte
for byte what one run from nothing leaves, and no later run is offered anything or changes the
file. The output path is that of a file, not the dash of the console. -/
theorem counted_runs_continue (job : Job) (added : Nat → Row → Row) (expects : job.Expects added)
    {work : Workspace} (left : job.Leaves job.countedResumer (Session.WritesInTurn added) work) :
    ∃ count, count ≤ job.rows.length ∧
      (work.file? job.path = none ∧ count = 0 ∨
        work.file? job.path = some (job.text ((job.outputs added).take count))) ∧
      (∃ enricher opened, job.resume job.countedResumer work = (.ok enricher, opened)) ∧
      (∀ session, job.Run job.countedResumer (Session.WritesInTurn added) work session →
        session.offered <+: job.rest count ∧
        (session.enricher.next session.work).1 =
          ((job.rest count)[session.offered.length]?).map .ok ∧
        (∀ offer cells, session.WritesInTurn added offer cells →
          (session.enricher.writeRow offer.index offer.row cells session.work).1 = .ok () ∧
            (session.write offer cells).written = session.written ++ [(offer, cells)]) ∧
        session.close.file? job.path =
          some (job.text ((job.outputs added).take (count + session.written.length)))) ∧
      (∃ session, job.Completes added work session) ∧
      ∀ session, job.Completes added work session →
        (∀ vacant, vacant.Home job.path → vacant.file? job.path = none →
          (∃ single, job.Completes added vacant single) ∧
            ∀ single, job.Completes added vacant single →
              session.close.file? job.path = single.close.file? job.path) ∧
        ∀ later, job.Run job.countedResumer (Session.WritesInTurn added) session.close later →
          later.offered = [] ∧ (later.enricher.next later.work).1 = none ∧
            later.close.file? job.path = session.close.file? job.path := by
  obtain ⟨count, inside, stands⟩ := expects.leaves left
  refine ⟨count, inside, ?_, ?_, ?_, expects.exists_completes inside stands, ?_⟩
  · generalize same : (job.outputs added).take count = records at stands
    cases stands with
    | vacant home absent =>
      refine .inl ⟨absent, ?_⟩
      have length := congrArg List.length same
      rw [List.length_take, length_outputs, List.length_nil] at length
      omega
    | written holds => exact .inr holds.held
  · obtain ⟨enricher, opened, resumed, _⟩ := expects.begin inside stands
    exact ⟨enricher, opened, resumed⟩
  · intro session ran
    obtain ⟨offered, next, accepted, _, closed⟩ := expects.run inside stands ran
    exact ⟨offered, next, accepted, closed.held⟩
  · intro session completes
    have whole := expects.complete inside stands completes
    refine ⟨?_, ?_⟩
    · intro vacant home absent
      refine ⟨expects.exists_completes (Nat.zero_le _) (.vacant home absent), ?_⟩
      intro single alone
      have same := expects.complete (Nat.zero_le _) (.vacant home absent) alone
      rw [whole.held, same.held]
    · intro later ran
      obtain ⟨offered, next, _, bound, closed⟩ := expects.run (Nat.le_refl _) (.written whole) ran
      have nothing : job.rest job.rows.length = [] := by
        rw [← List.length_eq_zero_iff, length_rest, Nat.sub_self]
      have unwritten : later.written.length = 0 := by omega
      rw [nothing] at offered next
      rw [unwritten, Nat.add_zero] at closed
      exact ⟨List.prefix_nil.mp offered, next, by rw [closed.held, whole.held]⟩

/-- The note that is added to every row of the sample. -/
def sampleNote (_ : Nat) (_ : Row) : Row := ["new"]

theorem sample_expects : (sample .plain).Expects sampleNote :=
  ⟨rfl, fun _ _ _ => rfl, fun nothing => by cases nothing⟩

/-- A run that wrote one row and was broken off, and the run after it. -/
theorem counted_runs_continue_sample :
    ∃ first second single,
      (sample .plain).Run (sample .plain).countedResumer (Session.WritesInTurn sampleNote) {}
        first ∧
      first.close.file? (sample .plain).path = some (Text.bytes "name,note\nann,new\n") ∧
      (sample .plain).Completes sampleNote first.close second ∧
      (sample .plain).Completes sampleNote {} single ∧
      second.close.file? (sample .plain).path =
        some (Text.bytes "name,note\nann,new\nbob,new\n") ∧
      second.close.file? (sample .plain).path = single.close.file? (sample .plain).path := by
  have none_yet : (sample .plain).Leaves (sample .plain).countedResumer
      (Session.WritesInTurn sampleNote) {} :=
    .nothing (sample_home .plain) rfl
  obtain ⟨count, _, stands, ⟨enricher, opened, resumed⟩, runs, _⟩ :=
    counted_runs_continue (sample .plain) sampleNote sample_expects none_yet
  obtain rfl : count = 0 := by
    rcases stands with ⟨_, same⟩ | there
    · exact same
    · cases there
  let start : Session := { enricher := enricher, work := opened }
  have ran {session : Session}
      (reached : Session.Reaches (Session.WritesInTurn sampleNote) start session) :=
    runs session ⟨enricher, opened, resumed, reached⟩
  have one : start.next.offered = [⟨0, ["ann"], none⟩] :=
    Session.offered_next_of_offer (ran .start).2.1
  have permitted : start.next.WritesInTurn sampleNote ⟨0, ["ann"], none⟩ ["new"] := by
    refine ⟨?_, rfl⟩
    rw [Session.written_next, one]
    rfl
  let first := start.next.write ⟨0, ["ann"], none⟩ ["new"]
  have reached : Session.Reaches (Session.WritesInTurn sampleNote) start first :=
    .write (.next .start) _ _ permitted
  have written : first.written = [(⟨0, ["ann"], none⟩, ["new"])] := by
    have grows := ((ran (.next .start)).2.2.1 _ _ permitted).2
    rwa [Session.written_next] at grows
  have stopped := (ran reached).2.2.2
  rw [written] at stopped
  obtain ⟨count, inside, _, _, runs, ⟨second, completes⟩, complete⟩ :=
    counted_runs_continue (sample .plain) sampleNote sample_expects
      (none_yet.run ⟨enricher, opened, resumed, reached⟩)
  obtain ⟨⟨single, alone⟩, same⟩ := (complete second completes).1 {} (sample_home .plain) rfl
  refine ⟨first, second, single, ⟨enricher, opened, resumed, reached⟩, ?_, completes, alone, ?_,
    same single alone⟩
  · rw [stopped]
    decide +kernel
  · obtain ⟨again, ended, all⟩ := completes
    obtain ⟨offered, next, _, closed⟩ := runs second again
    rw [next, Option.map_eq_none_iff, List.getElem?_eq_none_iff] at ended
    have last : count + second.written.length = 2 := by
      rw [all, offered.eq_of_length_le ended, length_rest]
      exact Nat.add_sub_cancel' inside
    rw [closed, last]
    decide +kernel

end Job

end ResumableCsv
