import Mathlib.Algebra.GroupWithZero.Nat
import ResumableCsv.Proofs.Reader.Build
import ResumableCsv.Proofs.Reader.Looks

/-!
Reading ahead is invisible: a reader with a budget has the items of one without, in the same order,
and no call can tell them apart. The total is known just when all rows fit the budget, and no call
changes it.
-/

namespace ResumableCsv

/-- A footprint counts the row, every cell, and every byte of a cell. -/
theorem Row.footprint_eq (row : Row) :
    row.footprint = 24 + 24 * row.length + (row.map String.utf8ByteSize).sum := by
  induction row with
  | nil => rfl
  | cons cell cells ih =>
    have step : Row.footprint (cell :: cells) = 24 + cell.utf8ByteSize + Row.footprint cells := rfl
    rw [step, ih, List.length_cons, List.map_cons, List.sum_cons]
    omega

namespace Reader

variable {reader : Reader} {rows : List Row}

theorem total_takeRaw (reader : Reader) : reader.takeRaw.2.total = reader.total := by
  unfold takeRaw
  split <;> rfl

theorem total_nextSourceRow (reader : Reader) :
    reader.nextSourceRow.2.total = reader.total := by
  have kept := total_takeRaw reader
  unfold nextSourceRow
  split <;> simp_all

theorem total_nextExpanded (reader : Reader) : reader.nextExpanded.2.total = reader.total := by
  have kept := total_nextSourceRow reader
  unfold nextExpanded
  split
  · rfl
  · split <;> simp_all

/-- No call changes the total. -/
theorem total_ask (look : Look) (reader : Reader) :
    (look.ask reader).2.total = reader.total := by
  have kept := total_nextExpanded reader
  cases look with
  | peek =>
    rw [Look.ask, peek]
    split
    · rfl
    · split <;> simp_all
    · rfl
  | read =>
    rw [Look.ask, readRow]
    split
    · rfl
    · split <;> simp_all
    · rfl

theorem total_after (looks : List Look) (reader : Reader) :
    (reader.after looks).total = reader.total := by
  induction looks generalizing reader with
  | nil => rfl
  | cons look looks ih => exact (ih (look.ask reader).2).trans (total_ask look reader)

theorem total_next (reader : Reader) : reader.next.2.total = reader.total := by
  have kept : reader.readRow.2.total = reader.total := total_ask .read reader
  unfold next
  split <;> simp_all

theorem total_pull (limit : Option Nat) (reader : Reader) :
    (reader.pull limit).2.total = reader.total := by
  have kept := total_next
  fun_induction pull limit reader with
  | case1 => rfl
  | case2 limit reader _ rest step =>
    have same := kept reader
    rwa [step] at same
  | case3 limit reader _ item rest step items last pulled ih =>
    have same := kept reader
    rw [step] at same
    rw [pulled] at ih
    exact ih.trans same

/-- Items without an error are read to their end. -/
theorem eq_map_ok_of_untilError {items : List (Except Error Row)}
    (sound : untilError items = rows.map .ok) : items = rows.map .ok := by
  induction items generalizing rows with
  | nil => simpa [untilError] using sound
  | cons item items ih =>
    cases item with
    | error error =>
      cases rows with
      | nil => simp [untilError] at sound
      | cons row rows => simp [untilError] at sound
    | ok first =>
      cases rows with
      | nil => simp [untilError] at sound
      | cons row rows =>
        rw [untilError, List.map_cons] at sound
        obtain ⟨same, later⟩ := List.cons.inj sound
        rw [same, ih later, List.map_cons]

/-- Reading ahead moves rows into the buffer, and it comes to the end of the source just when all
rows fit what is left of the budget. -/
theorem fillBuffer_of_coming (ready : reader.phase = .ready)
    (coming : reader.coming = rows.map .ok) (budget used : Nat) (fits : used ≤ budget)
    (held : List Row) :
    ∃ filled, reader.fillBuffer budget used held = .ok filled ∧ filled.phase = .ready ∧
      filled.buffer.map .ok ++ filled.coming = (held.reverse ++ rows).map .ok ∧
      filled.total =
        (if used + (rows.map Row.footprint).sum ≤ budget then some (held.length + rows.length)
          else reader.total) ∧
      filled.shape = reader.shape := by
  induction rows generalizing reader used held with
  | nil =>
    obtain ⟨rest, step, later⟩ := nextExpanded_of_coming_nil coming
    have shape : rest.shape = reader.shape := by
      simpa only [step] using shape_nextExpanded reader
    have still : rest.phase = .ready := (kept_of_nextExpanded step).1.trans ready
    have kept : ({ rest with buffer := held.reverse, total := some held.length } : Reader).coming =
        [] := later
    refine ⟨_, fillBuffer_of_end step budget used held, still, ?_, by simp [fits], shape⟩
    rw [kept, List.append_nil, List.append_nil]
  | cons row rows ih =>
    obtain ⟨rest, step, later⟩ := nextExpanded_of_coming_cons coming
    have step : reader.nextExpanded = (.ok (some row), rest) := step
    have shape : rest.shape = reader.shape := by
      simpa only [step] using shape_nextExpanded reader
    have total : rest.total = reader.total := by
      simpa only [step] using total_nextExpanded reader
    have still : rest.phase = .ready := (kept_of_nextExpanded step).1.trans ready
    have unfolded := fillBuffer_of_row step budget used held
    by_cases spent : budget < used + row.footprint
    · have beyond : ¬used + ((row :: rows).map Row.footprint).sum ≤ budget := by
        rw [List.map_cons, List.sum_cons]
        omega
      have kept : ({ rest with buffer := (row :: held).reverse } : Reader).coming =
          rows.map .ok := later
      refine ⟨{ rest with buffer := (row :: held).reverse }, by rw [unfolded, if_pos spent], still,
        ?_, by rw [if_neg beyond]; exact total, shape⟩
      rw [kept]
      simp
    · obtain ⟨filled, ahead, after, whole, counted, same⟩ :=
        ih still later (used + row.footprint) (by omega) (row :: held)
      refine ⟨filled, by rw [unfolded, if_neg spent, ahead], after, by simpa using whole, ?_,
        same.trans shape⟩
      rw [counted, total, List.map_cons, List.sum_cons, List.length_cons, List.length_cons,
        Nat.add_assoc, Nat.add_assoc, Nat.add_comm 1]

/-- Settling takes nothing away from a reader without errors. -/
theorem settle_of_items (ready : reader.phase = .ready) (items : reader.items = rows.map .ok) :
    ∃ settled, reader.settle = .ok settled ∧ settled.items = reader.items ∧
      settled.total = reader.total ∧ settled.shape = reader.shape ∧
      settled.isEmpty = rows.isEmpty := by
  cases buffered : reader.buffer with
  | cons row others =>
    have filled : rows.isEmpty = false := by
      cases rows with
      | nil => simp [items_of_ready ready, buffered] at items
      | cons => rfl
    exact ⟨reader, by simp [settle, buffered], rfl, rfl, rfl, by rw [isEmpty, ready, filled]; rfl⟩
  | nil =>
    have all : reader.items = reader.coming := by
      rw [items_of_ready ready, buffered]
      rfl
    have shape := shape_nextExpanded reader
    have total := total_nextExpanded reader
    cases rows with
    | nil =>
      obtain ⟨rest, step, _⟩ := nextExpanded_of_coming_nil (all.symm.trans items)
      rw [step] at shape total
      exact ⟨{ rest with phase := .empty }, by simp [settle, buffered, step], items.symm, total,
        shape, rfl⟩
    | cons row rows =>
      obtain ⟨rest, step, later⟩ := nextExpanded_of_coming_cons (all.symm.trans items)
      have still : rest.phase = .ready := (kept_of_nextExpanded step).1.trans ready
      rw [step] at shape total
      refine ⟨{ rest with buffer := [row] }, by simp [settle, buffered, step, Except.map], ?_,
        total, shape, by rw [isEmpty, still]; rfl⟩
      rw [items_of_ready (by exact still), items]
      exact congrArg (.ok row :: ·) later

/-- Nothing has been read of a reader that is being built. -/
structure Fresh (reader : Reader) : Prop where
  ready : reader.phase = .ready
  unbuffered : reader.buffer = []
  uncounted : reader.total = none

theorem fresh_ofFirstRow (options : ReaderOptions) (first : Row) (source : Source)
    (delimiter : UInt8) : (ofFirstRow options first source delimiter).Fresh := by
  unfold ofFirstRow
  split <;> exact ⟨rfl, rfl, rfl⟩

theorem Fresh.multiplexed {multiplex : Option Multiplex} {configured : Reader}
    (fresh : reader.Fresh) (divided : Reader.multiplexed multiplex reader = .ok configured) :
    configured.Fresh := by
  cases multiplex with
  | none =>
    cases divided
    exact fresh
  | some multiplex =>
    obtain ⟨index, headers, _, _, _, rfl⟩ := configureMultiplex_eq_ok_iff.mp divided
    exact ⟨fresh.ready, fresh.unbuffered, fresh.uncounted⟩

/-- A reader without errors to come can be finished, with or without reading ahead. -/
theorem finish_of_coming (fresh : reader.Fresh) (coming : reader.coming = rows.map .ok)
    (budget : Option Nat) :
    ∃ settled, (prebuffered budget reader >>= settle) = .ok settled ∧
      settled.rows = rows.map .ok := by
  have items : reader.items = rows.map .ok := by
    rw [items_of_ready fresh.ready, fresh.unbuffered, coming, List.map_nil, List.nil_append]
  obtain ⟨filled, ahead, ready, filledItems⟩ : ∃ filled, prebuffered budget reader = .ok filled ∧
      filled.phase = .ready ∧ filled.items = rows.map .ok := by
    cases budget with
    | none => exact ⟨reader, rfl, fresh.ready, items⟩
    | some budget =>
      obtain ⟨filled, ahead, ready, whole, _⟩ :=
        fillBuffer_of_coming fresh.ready coming budget 0 (Nat.zero_le _) []
      exact ⟨filled, ahead, ready, (items_of_ready ready).trans whole⟩
  obtain ⟨settled, last, settledItems, _⟩ := settle_of_items ready filledItems
  refine ⟨settled, Outcome.do_eq_ok_iff.mpr ⟨filled, ahead, last⟩, ?_⟩
  rw [rows_eq_untilError, settledItems, filledItems]
  simpa [untilError] using untilError_rows rows []

theorem eq_map_ok_of_opened {items : List (Except Error Row)}
    (sound : opened items = .ok (rows.map .ok)) : items = rows.map .ok := by
  unfold opened at sound
  split at sound
  · cases sound
  · exact eq_map_ok_of_untilError (Except.ok.inj sound)

/-- With a budget a reader is built just as without one, on the same rows. -/
theorem build_of_budget {options : ReaderOptions} {source : Source} {delimiter : UInt8}
    {plain : Reader}
    (built : build { options with prebuffer := none } source delimiter = .ok plain)
    (sound : plain.rows = rows.map .ok) (budget : Nat) :
    plain.items = rows.map .ok ∧
      ∃ reader, build { options with prebuffer := some budget } source delimiter = .ok reader ∧
        reader.items = rows.map .ok ∧ reader.shape = plain.shape ∧
        reader.isEmpty = plain.isEmpty ∧
        reader.total =
          if (rows.map Row.footprint).sum ≤ budget then some rows.length else none := by
  rcases step : source.next with ⟨error | _ | first, rest⟩
  · simp [build, step] at built
  · simp [build, step] at built
  · rw [build_of_first step] at built
    obtain ⟨configured, ready, settled⟩ := Outcome.do_eq_ok_iff.mp built
    obtain ⟨same, divided, ahead⟩ := Outcome.do_eq_ok_iff.mp ready
    cases ahead
    have fresh : configured.Fresh := (fresh_ofFirstRow options first rest delimiter).multiplexed divided
    have items : configured.items = rows.map .ok := by
      apply eq_map_ok_of_opened
      rw [← rows_settle fresh.ready fresh.unbuffered, settled, ← sound]
      rfl
    have coming : configured.coming = rows.map .ok := by
      rwa [items_of_ready fresh.ready, fresh.unbuffered] at items
    obtain ⟨direct, directly, directItems, _, directShape, directEmpty⟩ :=
      settle_of_items fresh.ready items
    obtain ⟨filled, buffering, still, whole, counted, filledShape⟩ :=
      fillBuffer_of_coming fresh.ready coming budget 0 (Nat.zero_le _) []
    have filledItems : filled.items = rows.map .ok := (items_of_ready still).trans whole
    obtain ⟨reader, opening, readerItems, total, shape, empty⟩ := settle_of_items still filledItems
    have chosen : direct = plain := by
      rw [settled] at directly
      exact (Except.ok.inj directly).symm
    subst chosen
    refine ⟨directItems.trans items, reader, ?_, readerItems.trans filledItems,
      (shape.trans filledShape).trans directShape.symm, empty.trans directEmpty.symm, ?_⟩
    · rw [build_of_first step]
      change (multiplexed options.multiplex (ofFirstRow options first rest delimiter) >>=
        fun reader => reader.fillBuffer budget 0 []) >>= settle = _
      have divided : multiplexed options.multiplex (ofFirstRow options first rest delimiter) =
        .ok configured := divided
      rw [divided, Outcome.ok_bind, buffering, Outcome.ok_bind, opening]
    · rw [total, counted, fresh.uncounted, List.length_nil, Nat.zero_add, Nat.zero_add]

/-- A reader that reads ahead up to a budget hands out just the rows of one that does not, and no
calls can tell the two apart. It knows its total if the footprints of all rows fit the budget, and
not otherwise, before, between and behind all calls. -/
theorem rows_of_prebuffered {options : ReaderOptions} {origin : Origin} {plain : Reader}
    (opened : { options with prebuffer := none }.openOn origin = .ok plain)
    (sound : plain.rows = rows.map .ok) (budget : Nat) :
    let needed := (rows.map fun row =>
      24 + 24 * row.length + (row.map String.utf8ByteSize).sum).sum
    let total := if needed ≤ budget then some rows.length else none
    ∃ reader, { options with prebuffer := some budget }.openOn origin = .ok reader ∧
      reader.rows = rows.map .ok ∧
      (∀ looks, reader.trace looks = plain.trace looks) ∧
      reader.shape = plain.shape ∧ reader.isEmpty = plain.isEmpty ∧
      (∀ looks, (reader.after looks).total = total) ∧
      ∀ limit, (reader.pull limit).2.total = total := by
  intro needed total
  rcases options.openOn_cases origin with ⟨error, failed⟩ | ⟨source, delimiter, builds⟩
  · rw [failed none] at opened
    cases opened
  · rw [builds none] at opened
    obtain ⟨plainItems, reader, built, items, shape, empty, counted⟩ :=
      build_of_budget opened sound budget
    have same : reader.items = plain.items := items.trans plainItems.symm
    have known : reader.total = total := by
      rw [counted, funext Row.footprint_eq]
    refine ⟨reader, (builds (some budget)).trans built, ?_, fun looks => trace_congr looks same,
      shape, empty, fun looks => (total_after looks reader).trans known,
      fun limit => (total_pull limit reader).trans known⟩
    rw [rows_eq_untilError, same, ← rows_eq_untilError, sound]

/-- Two rows of 51 each. A budget of 102 holds both; one of 101 is spent on the last of them, and
with it the total is not known. -/
theorem rows_of_prebuffered_sample :
    let origin : Origin := .rows [["name"], ["ann"], ["bob"]]
    let rows : List Row := [["ann"], ["bob"]]
    ∃ plain whole short : Reader,
      ReaderOptions.openOn {} origin = .ok plain ∧ plain.rows = rows.map .ok ∧
        ReaderOptions.openOn { prebuffer := some 102 } origin = .ok whole ∧
        ReaderOptions.openOn { prebuffer := some 101 } origin = .ok short ∧
        whole.rows = rows.map .ok ∧ short.rows = rows.map .ok ∧
        whole.total = some 2 ∧ short.total = none := by
  intro origin rows
  obtain ⟨plain, opened⟩ : ∃ plain, ReaderOptions.openOn {} origin = .ok plain := ⟨_, rfl⟩
  have sound : plain.rows = rows.map .ok := by
    cases opened
    rw [rows_of_next_some rfl, rows_of_next_some rfl, rows_of_next_none rfl]
    rfl
  obtain ⟨whole, openedWhole, rowsWhole, _, _, _, totalWhole, _⟩ :=
    @rows_of_prebuffered rows {} origin plain opened sound 102
  obtain ⟨short, openedShort, rowsShort, _, _, _, totalShort, _⟩ :=
    @rows_of_prebuffered rows {} origin plain opened sound 101
  exact ⟨plain, whole, short, opened, sound, openedWhole, openedShort, rowsWhole, rowsShort,
    totalWhole [], totalShort []⟩

end Reader

end ResumableCsv
