import Mathlib.Data.List.Perm.Subperm
import ResumableCsv.Proofs.Enrich.Counted
import ResumableCsv.Proofs.Enrich.Indexed

/-!
Runs to the end: every row that is offered is written, with cells that are computed from it and its
position, in any order where an index tells the rows apart and in turn otherwise. Under any NUL
policy there is such a run when all its output rows can be stored, and then they stand in the file,
behind what was there.
-/

namespace ResumableCsv

namespace Job

variable (job : Job)

/-- Goes by the index column where there is one, and by the number of rows otherwise. -/
def positionResumer : Resumer :=
  if job.tracking = .indexed then job.indexedResumer else job.countedResumer

/-- The output row of an input row, with the cells that belong to it. -/
def entryFor (added : Nat → Row → Row) (offer : Offer) : Row :=
  job.entry (offer, added offer.index offer.row)

/-- The output rows of all input rows, before they are stored. -/
def entries (added : Nat → Row → Row) : List Row :=
  job.rows.zipIdx.map fun (row, index) => job.entryFor added ⟨index, row, none⟩

/-- Rows are written with the cells that belong to them, in turn unless they bear an index. -/
def Allows (added : Nat → Row → Row) (session : Session) (offer : Offer) (cells : Row) : Prop :=
  if job.tracking = .indexed then
    session.WritesOnce offer cells ∧ cells = added offer.index offer.row
  else session.WritesInTurn added offer cells

/-- A run that writes all rows it is offered, to the last one. -/
structure WritesAll (nuls : NulPolicy) (added : Nat → Row → Row) (work : Workspace)
    (session : Session) : Prop where
  ran : job.RunStoring nuls job.positionResumer (job.Allows added) work session
  ended : (session.enricher.next session.work).1 = none
  all : ∀ offer ∈ session.offered, ∃ cells, (offer, cells) ∈ session.written

/-- A run is opened, never meets an error, and can come to its end, since each row is accepted when
it may be written; and whichever way it does, this holds of the files it leaves. -/
structure Continues (nuls : NulPolicy) (added : Nat → Row → Row) (work : Workspace)
    (outcome : Workspace → Prop) : Prop where
  offers : ∀ session error,
    job.RunStoring nuls job.positionResumer (job.Allows added) work session →
      (session.enricher.next session.work).1 ≠ some (.error error)
  accepts : ∀ session offer cells,
    job.RunStoring nuls job.positionResumer (job.Allows added) work session →
      job.Allows added session offer cells →
        (session.enricher.writeRow offer.index offer.row cells session.work).1 = .ok () ∧
          (session.write offer cells).written = session.written ++ [(offer, cells)]
  comes : ∃ session, job.WritesAll nuls added work session
  leaves : ∀ session, job.WritesAll nuls added work session → outcome session.close

variable {job} {nuls : NulPolicy} {added : Nat → Row → Row} {work : Workspace}

theorem Continues.imp {outcome other : Workspace → Prop}
    (continues : job.Continues nuls added work outcome)
    (implied : ∀ final, outcome final → other final) : job.Continues nuls added work other :=
  ⟨continues.offers, continues.accepts, continues.comes,
    fun session all => implied _ (continues.leaves session all)⟩

theorem path_positionResumer : job.positionResumer.output.path = job.path := by
  unfold positionResumer
  split <;> rfl

/-- Nothing is skipped before anything was read. -/
theorem skips_positionResumer :
    job.positionResumer.Skips (fun _ => false) 0 job.rows.length := by
  unfold positionResumer
  split
  · intro position _
    simp [RangeSet.contains, RangeSet.empty]
  · exact ⟨Nat.zero_le _, rfl, fun position => by simp⟩

theorem entries_eq (job : Job) (added : Nat → Row → Row) :
    job.entries added = (offers (fun _ => false) 0 job.rows).map (job.entryFor added) := by
  have all := offers_lt 0 0 job.rows
  rw [offers_lt_eq_drop, List.drop_zero, Nat.sub_zero, List.drop_zero] at all
  rw [all, List.map_map]
  rfl

section

variable {session : Session} {offer : Offer} {cells : Row}
  (allowed : job.Allows added session offer cells)

include allowed

theorem Allows.offered : offer ∈ session.offered := by
  unfold Allows at allowed
  split at allowed
  · exact allowed.1.1
  · exact List.mem_of_getElem? allowed.1

theorem Allows.cells_eq : cells = added offer.index offer.row := by
  unfold Allows at allowed
  split at allowed
  · exact allowed.2
  · exact allowed.2

end

/-- A row may be written behind others, of which without an index none is left out. -/
theorem allows_of_split {session : Session} {front rest : List Offer} {offer : Offer}
    (due : (front ++ offer :: rest).Perm session.offered) (distinct : session.offered.Nodup)
    (in_turn : job.tracking ≠ .indexed → front ++ offer :: rest = session.offered)
    (written : session.written = front.map fun offer => (offer, added offer.index offer.row)) :
    job.Allows added session offer (added offer.index offer.row) := by
  unfold Allows
  split
  · have offered : offer ∈ session.offered := due.subset (by simp)
    exact ⟨Session.writesOnce_of_split offered (due.nodup_iff.mpr distinct) written, rfl⟩
  next plain => exact Session.writesInTurn_of_split (in_turn plain).symm written

section

variable {done : Nat → Bool} {before : Bytes} {enricher : Enricher} {session : Session}
  (sound : job.Sound nuls done before { enricher := enricher, work := work })

include sound

theorem Sound.cells_eq
    (reached : Session.Reaches (job.Allows added) { enricher := enricher, work := work } session) :
    ∀ written ∈ session.written, written.2 = added written.1.index written.1.row := by
  induction reached with
  | start => simp
  | next _ ih =>
    rw [Session.written_next]
    exact ih
  | flush _ ih => exact ih
  | @write session earlier offer cells permitted ih =>
    have still := sound.reaches (fun _ _ _ permitted => permitted.offered) earlier
    by_cases fits : (job.writerOptions nuls).Fits job.plan.outputLength (job.entry (offer, cells))
    · rw [(still.write_accepted permitted.offered fits).2.2.1]
      exact List.forall_mem_append.mpr
        ⟨ih, List.forall_mem_singleton.mpr permitted.cells_eq⟩
    · rw [still.write_refused permitted.offered fits]
      exact ih

/-- Once all that was offered is written, it is just what was due, in some order. -/
theorem Sound.written_all
    (reached : Session.Reaches (job.Allows added) { enricher := enricher, work := work } session)
    (ended : (session.enricher.next session.work).1 = none)
    (all : ∀ offer ∈ session.offered, ∃ cells, (offer, cells) ∈ session.written) :
    ∃ order, order.Perm (offers done 0 job.rows) ∧
      (job.tracking ≠ .indexed → order = offers done 0 job.rows) ∧
      session.written = order.map fun offer => (offer, added offer.index offer.row) := by
  have still := sound.reaches (fun _ _ _ permitted => permitted.offered) reached
  rw [still.next_eq, Option.map_eq_none_iff, List.getElem?_eq_none_iff] at ended
  rw [← still.offered_prefix.eq_of_length_le ended]
  have computed : session.written = (session.written.map Prod.fst).map
      fun offer => (offer, added offer.index offer.row) := by
    rw [List.map_map]
    refine (List.map_id _).symm.trans (List.map_congr_left ?_)
    intro written member
    exact Prod.ext rfl (sound.cells_eq reached written member)
  have covered : session.offered ⊆ session.written.map Prod.fst := by
    intro offer member
    obtain ⟨cells, written⟩ := all offer member
    exact List.mem_map.mpr ⟨_, written, rfl⟩
  have in_turn (plain : job.tracking ≠ .indexed) :
      session.written.map Prod.fst = session.offered := by
    have same : job.Allows added = Session.WritesInTurn added := by
      funext session offer cells
      rw [Allows, if_neg plain]
    rw [same] at reached
    have leading := (sound.written_prefix reached).map Prod.fst
    have firsts : Prod.fst ∘ (fun offer : Offer => (offer, added offer.index offer.row)) = id := rfl
    rw [List.map_map, firsts, List.map_id] at leading
    exact leading.eq_of_length_le (List.subperm_of_subset still.nodup_offered covered).length_le
  refine ⟨session.written.map Prod.fst, ?_, in_turn, computed⟩
  · by_cases indexed : job.tracking = .indexed
    · obtain ⟨known, distinct⟩ := sound.written_once (fun session offer cells permitted => by
        rw [Allows, if_pos indexed] at permitted
        exact permitted.1) reached
      refine (List.perm_ext_iff_of_nodup distinct still.nodup_offered).mpr fun offer => ⟨?_, ?_⟩
      · intro member
        obtain ⟨written, there, rfl⟩ := List.mem_map.mp member
        exact known written there
      · exact fun member => covered member
    · exact .of_eq (in_turn indexed)

end

section

variable {done : Nat → Bool} {before : Bytes} {enricher : Enricher} {opened : Workspace}
  (resumed : job.resumeStoring nuls job.positionResumer work = (.ok enricher, opened))
  (sound : job.Sound nuls done before { enricher := enricher, work := opened })

include resumed sound

theorem Sound.of_run {session : Session}
    (ran : job.RunStoring nuls job.positionResumer (job.Allows added) work session) :
    Session.Reaches (job.Allows added) { enricher := enricher, work := opened } session ∧
      job.Sound nuls done before session := by
  obtain ⟨_, _, again, reached⟩ := ran
  cases resumed.symm.trans again
  exact ⟨reached, sound.reaches (fun _ _ _ permitted => permitted.offered) reached⟩

/-- A run to the end is sound, and has written what was due. -/
theorem Sound.of_writesAll {session : Session} (finished : job.WritesAll nuls added work session) :
    job.Sound nuls done before session ∧
      ∃ order, order.Perm (offers done 0 job.rows) ∧
        (job.tracking ≠ .indexed → order = offers done 0 job.rows) ∧
        session.written = order.map fun offer => (offer, added offer.index offer.row) := by
  obtain ⟨reached, still⟩ := sound.of_run resumed finished.ran
  exact ⟨still, sound.written_all reached finished.ended finished.all⟩

/-- Where all that is due can be stored there is such a run, with an index in any order. -/
theorem Sound.exists_writesAll {order : List Offer} (due : order.Perm (offers done 0 job.rows))
    (in_turn : job.tracking ≠ .indexed → order = offers done 0 job.rows)
    (fit : ∀ offer ∈ order,
      (job.writerOptions nuls).Fits job.plan.outputLength (job.entryFor added offer)) :
    ∃ session, job.WritesAll nuls added work session ∧
      session.written = order.map fun offer => (offer, added offer.index offer.row) := by
  obtain ⟨last, reached, ended, offered, written⟩ := Sound.completes .start sound _ due
    (fun session front offer rest offered split => by
      rw [split, ← offered] at due in_turn
      exact allows_of_split due (offered ▸ nodup_offers _ 0 job.rows) in_turn)
    fit rfl
  refine ⟨last, ⟨⟨enricher, opened, resumed, reached⟩, ended, ?_⟩, written⟩
  intro offer member
  rw [offered] at member
  rw [written]
  exact ⟨_, List.mem_map_of_mem (due.symm.subset member)⟩

/-- So a run goes on where all that is due can be stored. -/
theorem Sound.continues
    (fit : ∀ offer ∈ offers done 0 job.rows,
      (job.writerOptions nuls).Fits job.plan.outputLength (job.entryFor added offer)) :
    job.Continues nuls added work fun final => ∃ order, order.Perm (offers done 0 job.rows) ∧
      (job.tracking ≠ .indexed → order = offers done 0 job.rows) ∧
      final.Holds job.path (before ++ tableText job.context.dialect
        ((order.map (job.entryFor added)).map nuls.stored)) := by
  refine ⟨?_, ?_, ?_, ?_⟩
  · intro session error ran fails
    rw [(sound.of_run resumed ran).2.next_eq, Option.map_eq_some_iff] at fails
    obtain ⟨_, _, other⟩ := fails
    cases other
  · intro session offer cells ran permitted
    have still := (sound.of_run resumed ran).2
    have fits : (job.writerOptions nuls).Fits job.plan.outputLength (job.entry (offer, cells)) := by
      rw [permitted.cells_eq]
      exact fit offer (still.offered_prefix.subset permitted.offered)
    obtain ⟨accepted, _, written, _⟩ := still.write_accepted permitted.offered fits
    exact ⟨accepted, written⟩
  · obtain ⟨session, finished, _⟩ := sound.exists_writesAll resumed (.refl _) (fun _ => rfl) fit
    exact ⟨session, finished⟩
  · intro session finished
    obtain ⟨still, order, same, in_turn, written⟩ := sound.of_writesAll resumed finished
    have closed := still.close
    rw [written, List.map_map] at closed
    refine ⟨order, same, in_turn, ?_⟩
    rw [List.map_map]
    exact closed

end

section

variable (home : work.Home job.path) (vacant : work.size job.path = 0)

include home vacant

theorem sound_anew {writer : Writer} {opened : Workspace}
    (built : (job.writerOptions nuls).build (.file job.path) true (work.put job.path []) =
      .ok (writer, opened)) :
    ∃ enricher, job.resumeStoring nuls job.positionResumer work = (.ok enricher, opened) ∧
      job.Sound nuls (fun _ => false) (job.storedText nuls [])
        { enricher := enricher, work := opened } := by
  obtain ⟨enricher, resumed, fresh, stores⟩ := stores_anew path_positionResumer home vacant built
  exact ⟨enricher, resumed, .of_fresh stores fresh skips_positionResumer⟩

/-- A run to the end on a new output leaves the header and all output rows as they are stored,
which they can be. -/
theorem WritesAll.anew {session : Session} (finished : job.WritesAll nuls added work session) :
    ∃ order, order.Perm (offers (fun _ => false) 0 job.rows) ∧
      (job.tracking ≠ .indexed → order = offers (fun _ => false) 0 job.rows) ∧
      session.written.map job.entry = order.map (job.entryFor added) ∧
      (∀ row ∈ session.written.map job.entry,
        (job.writerOptions nuls).Fits job.plan.outputLength row) ∧
      session.close.Holds job.path (job.storedText nuls (session.written.map job.entry)) := by
  obtain ⟨enricher, opened, resumed, _⟩ := finished.ran
  obtain ⟨writer, opened', built⟩ :=
    exists_built_of_resumeStoring path_positionResumer home vacant (congrArg Prod.fst resumed)
  obtain ⟨_, again, sound⟩ := sound_anew home vacant built
  obtain ⟨still, order, same, in_turn, written⟩ := sound.of_writesAll again finished
  refine ⟨order, same, in_turn, ?_, List.forall_mem_map.mpr still.fit, ?_⟩
  · rw [written, List.map_map]
    rfl
  · have closed := still.close
    rw [← List.nil_append (session.written.map job.entry), storedText_append, List.map_map]
    exact closed

end

end Job

end ResumableCsv
