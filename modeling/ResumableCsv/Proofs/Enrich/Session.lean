import ResumableCsv.Proofs.Enrich.Stores

/-!
Runs of enrichers: a caller asks for rows, writes some of those that were offered, flushes, and at
last drops the enricher. The output always holds what it held before and the rows written since, and
what was offered is the beginning of what is due. A caller who may write all of it comes to the end.
-/

namespace ResumableCsv

/-- A run, with the rows offered so far and those accepted for the output. -/
structure Session where
  enricher : Enricher
  work : Workspace
  offered : List Offer := []
  written : List (Offer × Row) := []

namespace Session

def next (session : Session) : Session :=
  match session.enricher.next session.work with
  | (some (.ok offer), enricher, work) =>
    { session with enricher, work, offered := session.offered ++ [offer] }
  | (_, enricher, work) => { session with enricher, work }

def write (offer : Offer) (added : Row) (session : Session) : Session :=
  match session.enricher.writeRow offer.index offer.row added session.work with
  | (.ok (), enricher, work) =>
    { session with enricher, work, written := session.written ++ [(offer, added)] }
  | (.error _, enricher, work) => { session with enricher, work }

def flush (session : Session) : Session :=
  let (enricher, work) := session.enricher.flush session.work
  { session with enricher, work }

/-- The workspace once the enricher is dropped. -/
def close (session : Session) : Workspace := (session.enricher.close session.work).2

/-- What a caller can bring about who only makes allowed writes. -/
inductive Reaches (allowed : Session → Offer → Row → Prop) (start : Session) : Session → Prop
  | start : Reaches allowed start start
  | next {session : Session} (reached : Reaches allowed start session) :
      Reaches allowed start session.next
  | flush {session : Session} (reached : Reaches allowed start session) :
      Reaches allowed start session.flush
  | write {session : Session} (reached : Reaches allowed start session) (offer : Offer)
      (added : Row) (permitted : allowed session offer added) :
      Reaches allowed start (session.write offer added)

variable {session : Session}

theorem written_next (session : Session) : session.next.written = session.written := by
  unfold next
  split <;> rfl

theorem offered_next (session : Session) : session.offered <+: session.next.offered := by
  unfold next
  split
  · exact List.prefix_append _ _
  · exact List.prefix_refl _

theorem offered_next_of_offer {offer : Offer}
    (step : (session.enricher.next session.work).1 = some (.ok offer)) :
    session.next.offered = session.offered ++ [offer] := by
  rcases found : session.enricher.next session.work with ⟨item, enricher, work⟩
  rw [found] at step
  obtain rfl : item = some (.ok offer) := step
  rw [next, found]

end Session

namespace Job

variable (job : Job)

/-- What has become of the output between two runs: it is not there yet, or it holds the header and
these rows. -/
inductive Stands (work : Workspace) : List Row → Prop
  | vacant (home : work.Home job.path) (absent : work.file? job.path = none) : Stands work []
  | written {records : List Row} (holds : work.Holds job.path (job.text records)) :
      Stands work records

/-- A run on a workspace, as far as it has come. -/
def Run (resumer : Resumer) (allowed : Session → Offer → Row → Prop) (work : Workspace)
    (session : Session) : Prop :=
  ∃ enricher opened, job.resume resumer work = (.ok enricher, opened) ∧
    Session.Reaches allowed { enricher := enricher, work := opened } session

/-- A run under another NUL policy, as far as it has come. -/
def RunStoring (nuls : NulPolicy) (resumer : Resumer) (allowed : Session → Offer → Row → Prop)
    (work : Workspace) (session : Session) : Prop :=
  ∃ enricher opened, job.resumeStoring nuls resumer work = (.ok enricher, opened) ∧
    Session.Reaches allowed { enricher := enricher, work := opened } session

/-- The workspaces that runs of a job leave behind, the first of which found no output. -/
inductive Leaves (resumer : Resumer) (allowed : Session → Offer → Row → Prop) : Workspace → Prop
  | nothing {work : Workspace} (home : work.Home job.path) (absent : work.file? job.path = none) :
      Leaves resumer allowed work
  | run {work : Workspace} {session : Session} (earlier : Leaves resumer allowed work)
      (ran : job.Run resumer allowed work session) : Leaves resumer allowed session.close

/-- The output of a run holds what was there before and what was accepted since; what was offered
and what is still to come make up the rows that were not done. -/
structure Sound (nuls : NulPolicy) (done : Nat → Bool) (before : Bytes) (session : Session) :
    Prop where
  stores : job.Stores nuls session.enricher session.work before
    (session.written.map fun written => nuls.stored (job.entry written))
  awaits : ∃ left, session.enricher.Awaits done left ∧
    session.offered ++ offers done session.enricher.nextIndex left = offers done 0 job.rows
  fit : ∀ written ∈ session.written,
    (job.writerOptions nuls).Fits job.plan.outputLength (job.entry written)

variable {job} {nuls : NulPolicy} {done : Nat → Bool} {before : Bytes} {records : List Row}
  {session : Session} {work : Workspace}

namespace Sound

section

variable (sound : job.Sound nuls done before session)

include sound

theorem offered_prefix : session.offered <+: offers done 0 job.rows := by
  obtain ⟨left, _, same⟩ := sound.awaits
  exact ⟨_, same⟩

theorem nodup_offered : session.offered.Nodup :=
  (nodup_offers done 0 job.rows).sublist sound.offered_prefix.sublist

/-- The next offer is the first due row that was not offered yet. -/
theorem next_eq :
    (session.enricher.next session.work).1 =
      ((offers done 0 job.rows)[session.offered.length]?).map .ok := by
  obtain ⟨left, awaits, same⟩ := sound.awaits
  obtain ⟨later, rest, step, _⟩ := awaits.next session.work
  rw [step, ← same, List.getElem?_append_right (Nat.le_refl _), Nat.sub_self,
    List.head?_eq_getElem?]

theorem next : job.Sound nuls done before session.next := by
  obtain ⟨left, awaits, same⟩ := sound.awaits
  obtain ⟨later, rest, step, awaiting, offered, alike⟩ := awaits.next session.work
  have stores := sound.stores.of_alike alike
  cases due : offers done session.enricher.nextIndex left with
  | nil =>
    rw [due] at step offered same
    have stepped : session.next = { session with enricher := later } := by
      simp [Session.next, step]
    rw [stepped]
    refine ⟨stores, ⟨rest, awaiting, ?_⟩, sound.fit⟩
    rw [offered]
    exact same
  | cons offer others =>
    rw [due] at step offered same
    have stepped : session.next =
        { session with enricher := later, offered := session.offered ++ [offer] } := by
      simp [Session.next, step]
    rw [stepped]
    refine ⟨stores, ⟨rest, awaiting, ?_⟩, sound.fit⟩
    rw [offered]
    simpa using same

theorem flush : job.Sound nuls done before session.flush := by
  obtain ⟨left, awaits, same⟩ := sound.awaits
  exact ⟨sound.stores.flush, ⟨left, ⟨awaits.rows_eq, awaits.skips⟩, same⟩, sound.fit⟩

/-- Dropping the enricher leaves the output with all rows that were accepted. -/
theorem close :
    session.close.Holds job.path (before ++ tableText job.context.dialect
      (session.written.map fun written => nuls.stored (job.entry written))) :=
  sound.stores.close

variable {offer : Offer}

/-- What is offered is an input row that was not done before. -/
theorem of_offered (offered : offer ∈ session.offered) :
    job.rows[offer.index]? = some offer.row ∧ done offer.index = false ∧ offer.resume = none := by
  obtain ⟨position, row, there, fresh, rfl⟩ :=
    mem_offers.mp (sound.offered_prefix.subset offered)
  rw [Nat.zero_add] at fresh ⊢
  exact ⟨there, fresh, rfl⟩

theorem unique_of_index {one other : Offer} (first : one ∈ session.offered)
    (second : other ∈ session.offered) (same : one.index = other.index) : one = other := by
  obtain ⟨there, _, resume⟩ := sound.of_offered first
  obtain ⟨there', _, resume'⟩ := sound.of_offered second
  rw [same, there', Option.some.injEq] at there
  cases one
  cases other
  simp only at same there resume resume'
  rw [same, there, resume, resume']

theorem length_of_offered (offered : offer ∈ session.offered) :
    offer.row.length = job.reader.rowLength :=
  job.length_of_mem (List.mem_of_getElem? (sound.of_offered offered).1)

variable (offered : offer ∈ session.offered) {added : Row}

include offered

/-- An offered row is written when it can be stored. -/
theorem write_accepted
    (fits : (job.writerOptions nuls).Fits job.plan.outputLength (job.entry (offer, added))) :
    (session.enricher.writeRow offer.index offer.row added session.work).1 = .ok () ∧
      (session.write offer added).offered = session.offered ∧
      (session.write offer added).written = session.written ++ [(offer, added)] ∧
      job.Sound nuls done before (session.write offer added) := by
  obtain ⟨left, awaits, same⟩ := sound.awaits
  obtain ⟨writer, rest, written, stores⟩ :=
    sound.stores.writeRow (sound.length_of_offered offered) fits
  have stepped : session.write offer added =
      { session with
        enricher := { session.enricher with writer := writer }
        work := rest
        written := session.written ++ [(offer, added)] } := by
    rw [Session.write, written]
  rw [stepped]
  refine ⟨by rw [written], rfl, rfl, ?_, ⟨left, ⟨awaits.rows_eq, awaits.skips⟩, same⟩, ?_⟩
  · rw [List.map_append]
    exact stores
  · exact List.forall_mem_append.mpr ⟨sound.fit, List.forall_mem_singleton.mpr fits⟩

/-- Else nothing changes. -/
theorem write_refused
    (other : ¬(job.writerOptions nuls).Fits job.plan.outputLength (job.entry (offer, added))) :
    session.write offer added = session := by
  obtain ⟨error, refused⟩ :=
    sound.stores.writeRow_refused (sound.length_of_offered offered) other
  rw [Session.write, refused]

theorem write (added : Row) : job.Sound nuls done before (session.write offer added) := by
  by_cases fits : (job.writerOptions nuls).Fits job.plan.outputLength (job.entry (offer, added))
  · exact (sound.write_accepted offered fits).2.2.2
  · rw [sound.write_refused offered fits]
    exact sound

end

/-- Whatever a caller does with the rows offered, the run stays sound. -/
theorem reaches {allowed : Session → Offer → Row → Prop}
    (offered : ∀ session offer added, allowed session offer added → offer ∈ session.offered)
    {start : Session} (sound : job.Sound nuls done before start)
    (reached : Session.Reaches allowed start session) : job.Sound nuls done before session := by
  induction reached with
  | start => exact sound
  | next _ ih => exact ih.next
  | flush _ ih => exact ih.flush
  | write _ offer added permitted ih => exact ih.write (offered _ offer added permitted) added

section

variable {allowed : Session → Offer → Row → Prop} {start : Session}
  (reached : Session.Reaches allowed start session) (sound : job.Sound nuls done before session)

include reached sound

/-- A caller may ask for all rows before one is written. -/
theorem offers_all :
    ∃ last, Session.Reaches allowed start last ∧ job.Sound nuls done before last ∧
      last.offered = offers done 0 job.rows ∧ last.written = session.written := by
  -- On the rows that are still to be offered.
  obtain ⟨rest, same⟩ := sound.offered_prefix
  induction rest generalizing session with
  | nil =>
    rw [List.append_nil] at same
    exact ⟨session, reached, sound, same, rfl⟩
  | cons offer rest ih =>
    have step : (session.enricher.next session.work).1 = some (.ok offer) := by
      rw [sound.next_eq, ← same, List.getElem?_append_right (Nat.le_refl _), Nat.sub_self]
      rfl
    rw [← Session.written_next session]
    refine ih reached.next sound.next ?_
    rw [Session.offered_next_of_offer step, List.append_assoc]
    exact same

variable {order : List Offer} (cells : Offer → Row) (due : order.Perm (offers done 0 job.rows))
  (permits : ∀ (session : Session) front offer rest, session.offered = offers done 0 job.rows →
    order = front ++ offer :: rest →
      session.written = front.map (fun offer => (offer, cells offer)) →
        allowed session offer (cells offer))
  (fit : ∀ offer ∈ order,
    (job.writerOptions nuls).Fits job.plan.outputLength (job.entry (offer, cells offer)))

include due permits fit

/-- Rows that were offered are written in any order that is allowed, when they can be stored. -/
theorem writes_all {front rest : List Offer} (split : order = front ++ rest)
    (offered : session.offered = offers done 0 job.rows)
    (written : session.written = front.map fun offer => (offer, cells offer)) :
    ∃ last, Session.Reaches allowed start last ∧ job.Sound nuls done before last ∧
      last.offered = offers done 0 job.rows ∧
      last.written = order.map fun offer => (offer, cells offer) := by
  -- On the rows that are still to be written.
  induction rest generalizing front session with
  | nil =>
    rw [List.append_nil] at split
    exact ⟨session, reached, sound, offered, split ▸ written⟩
  | cons offer rest ih =>
    have member : offer ∈ order := by simp [split]
    have here : offer ∈ session.offered := offered ▸ due.subset member
    obtain ⟨_, still_offered, grows, still⟩ := sound.write_accepted here (fit offer member)
    have permitted := permits session front offer rest offered split written
    have moved : order = (front ++ [offer]) ++ rest := by
      rw [split, List.append_assoc]
      rfl
    refine ih (reached.write offer _ permitted) still moved ?_ ?_
    · rw [still_offered, offered]
    · rw [grows, written, List.map_append]
      rfl

/-- So a caller comes to write all rows that are due. -/
theorem completes (unwritten : session.written = []) :
    ∃ last, Session.Reaches allowed start last ∧ (last.enricher.next last.work).1 = none ∧
      last.offered = offers done 0 job.rows ∧
      last.written = order.map fun offer => (offer, cells offer) := by
  obtain ⟨asked, reached, sound, offered, written⟩ := offers_all reached sound
  rw [unwritten] at written
  obtain ⟨last, reached, still, offered, written⟩ :=
    writes_all reached sound cells due permits fit (List.nil_append order).symm offered written
  refine ⟨last, reached, ?_, offered, written⟩
  rw [still.next_eq, offered, List.getElem?_eq_none (Nat.le_refl _)]
  rfl

end

theorem of_fresh {enricher : Enricher} {resumer : Resumer}
    (stores : job.Stores nuls enricher work before []) (fresh : job.Fresh enricher resumer)
    (skips : resumer.Skips done 0 job.rows.length) :
    job.Sound nuls done before { enricher := enricher, work := work } := by
  refine ⟨stores, ⟨job.rows, ⟨?_, resumer, fresh.resumer_eq, ?_⟩, ?_⟩, by simp⟩
  · rw [fresh.reader_eq]
    exact job.reads
  · rw [fresh.nextIndex_eq, Nat.zero_add]
    exact skips
  · rw [fresh.nextIndex_eq]
    rfl

/-- When NULs are kept, the rows stand in the output as they were accepted. -/
theorem close_keep (sound : job.Sound .keep done (job.text records) session) :
    session.close.Holds job.path (job.text (records ++ session.written.map job.entry)) := by
  rw [text_append]
  exact sound.close

end Sound

/-- A run begins soundly when its resumer, untouched or after it has looked at the output, skips
just what is done. -/
theorem Stands.begin {resumer : Resumer} (same : resumer.output.path = job.path)
    (stands : job.Stands work records)
    (untouched : records = [] → resumer.Skips done 0 job.rows.length)
    (inspected : job.header ++ records ≠ [] → work.file? job.path = some (job.text records) →
      ∃ looked, resumer.inspect job.context job.defaults work = (.ok (), looked) ∧
        looked.output.path = job.path ∧ looked.Skips done 0 job.rows.length) :
    ∃ enricher opened, job.resume resumer work = (.ok enricher, opened) ∧
      job.Sound .keep done (job.text records) { enricher := enricher, work := opened } := by
  have anew (home : work.Home job.path) (empty : work.size job.path = 0) (none_yet : records = []) :
      ∃ enricher opened, job.resume resumer work = (.ok enricher, opened) ∧
        job.Sound .keep done (job.text records) { enricher := enricher, work := opened } := by
    subst none_yet
    obtain ⟨writer, opened, built⟩ := exists_built_keep home
    obtain ⟨enricher, resumed, fresh, stores⟩ := stores_anew same home empty built
    rw [resumeStoring_keep] at resumed
    rw [storedText_keep] at stores
    exact ⟨enricher, opened, resumed, .of_fresh stores fresh (untouched rfl)⟩
  cases stands with
  | vacant home absent => exact anew home (by simp [Workspace.size, absent]) rfl
  | written holds =>
    by_cases nothing : job.header ++ records = []
    · refine anew holds.home ?_ (List.append_eq_nil_iff.mp nothing).2
      simp [Workspace.size, holds.held, text, nothing, tableText]
    · obtain ⟨looked, seen, still, skips⟩ := inspected nothing holds.held
      have filled : job.text records ≠ [] := tableText_ne_nil _ nothing
      have ends : (job.text records).getLast? = some Record.lineFeed :=
        getLast?_tableText _ nothing
      obtain ⟨enricher, resumed, fresh, stores⟩ := stores_behind same filled holds still seen
      rw [resumeStoring_keep, Workspace.endLine_of_ended ends] at resumed
      rw [Record.ended, if_pos ends, Workspace.endLine_of_ended ends] at stores
      exact ⟨enricher, work, resumed, .of_fresh stores fresh skips⟩

end Job

end ResumableCsv
