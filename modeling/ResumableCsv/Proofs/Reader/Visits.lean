import ResumableCsv.Proofs.Reader.Looks

/-!
Everything a caller can have of the rows of a reader: looks, reads, and the iterations over one
column. All that is shown comes from the items of the reader, and a call only takes items off the
front.
-/

namespace ResumableCsv.Reader

/-- A call that shows rows or cells: a look or a read, the cells of one column, or these beside their
rows, up to the end or up to a number of rows. -/
inductive Visit
  | look (asked : Look)
  | cells (key : ColumnKey) (limit : Option Nat)
  | cellsWithRows (key : ColumnKey) (limit : Option Nat)

/-- The rows among some items. -/
def rowsOf (items : List (Except Error Row)) : List Row := items.filterMap Except.toOption

/-- All cells that a call shows, and the reader it leaves. -/
def Visit.ask : Visit → Reader → List String × Reader
  | .look asked, reader =>
    let (answer, rest) := asked.ask reader
    (answer.toOption.join.getD [], rest)
  | .cells key limit, reader =>
    match reader.requiredColumn key with
    | .error _ => ([], reader)
    | .ok index =>
      let (found, rest) := reader.pullCells limit index
      (found.filterMap Except.toOption, rest)
  | .cellsWithRows key limit, reader =>
    match reader.requiredColumn key with
    | .error _ => ([], reader)
    | .ok index =>
      let (items, rest) := reader.pull limit
      ((rowsOf items).flatMap fun row => row ++ [row.cell index], rest)

/-- All cells that some calls show. -/
def exposed : List Visit → Reader → List String
  | [], _ => []
  | visit :: visits, reader => (visit.ask reader).1 ++ exposed visits (visit.ask reader).2

/-- The reader that such calls leave. -/
def visited (visits : List Visit) (reader : Reader) : Reader :=
  visits.foldl (fun reader visit => (visit.ask reader).2) reader

variable {reader rest : Reader} {row : Row} {cell : String}

theorem mem_rowsOf {items : List (Except Error Row)} : row ∈ rowsOf items ↔ .ok row ∈ items := by
  rw [rowsOf, List.mem_filterMap]
  constructor
  · rintro ⟨_ | other, member, same⟩
    · cases same
    · cases same
      exact member
  · exact fun member => ⟨.ok row, member, rfl⟩

theorem left_suffix (look : Look) (items : List (Except Error Row)) : look.left items <:+ items := by
  match look, items with
  | _, [] => exact List.suffix_rfl
  | .peek, .ok _ :: _ => exact List.suffix_rfl
  | .peek, .error _ :: _ => exact List.suffix_cons _ _
  | .read, .ok _ :: _ => exact List.suffix_cons _ _
  | .read, .error _ :: _ => exact List.nil_suffix

/-- The next item is the first of the items, and the others stay behind it. -/
theorem next_spec (reader : Reader) :
    (∀ item ∈ reader.next.1, item ∈ reader.items) ∧ reader.next.2.items <:+ reader.items := by
  cases found : reader.items with
  | nil =>
    obtain ⟨rest, step, later⟩ := readRow_of_items_nil found
    simp [next, step, later]
  | cons item others =>
    obtain ⟨rest, step, later⟩ := readRow_of_items_cons found
    have taken : reader.next = (some item, rest) := by
      cases item <;> simp [next, step, Except.map]
    have behind : rest.items <:+ item :: others := by
      rw [later]
      exact left_suffix .read (item :: others)
    rw [taken]
    exact ⟨by simp, behind⟩

/-- Iterating hands out items and leaves an end of them. -/
theorem pull_spec (limit : Option Nat) (reader : Reader) :
    (∀ item ∈ (reader.pull limit).1, item ∈ reader.items) ∧
      (reader.pull limit).2.items <:+ reader.items ∧
      (reader.pull limit).2.shape = reader.shape := by
  fun_induction pull limit reader with
  | case1 => exact ⟨by simp, List.suffix_rfl, rfl⟩
  | case2 limit reader _ rest step =>
    have left := (next_spec reader).2
    have kept := shape_next reader
    rw [step] at left kept
    exact ⟨by simp, left, kept⟩
  | case3 limit reader _ item rest step items last pulled ih =>
    obtain ⟨first, left⟩ := next_spec reader
    have kept := shape_next reader
    rw [step] at first left kept
    rw [pulled] at ih
    obtain ⟨others, end_left, end_kept⟩ := ih
    refine ⟨?_, end_left.trans left, end_kept.trans kept⟩
    exact List.forall_mem_cons.mpr
      ⟨first item rfl, fun other member => left.subset (others other member)⟩

theorem shape_peek (reader : Reader) : reader.peek.2.shape = reader.shape := by
  have kept := shape_nextExpanded reader
  unfold peek
  split
  · rfl
  · split <;> simp_all [shape]
  · rfl

theorem shape_ask (look : Look) (reader : Reader) : (look.ask reader).2.shape = reader.shape := by
  cases look with
  | peek => exact shape_peek reader
  | read => exact shape_readRow reader

theorem cell_mem_or_empty (row : Row) (index : Nat) : row.cell index ∈ row ∨ row.cell index = "" := by
  unfold Row.cell
  cases found : row[index]? with
  | none => exact .inr rfl
  | some cell => exact .inl (List.mem_of_getElem? found)

/-- A call shows cells of the rows to come and takes rows off the front; what is known of the rows
does not change. -/
theorem visit_spec (visit : Visit) (reader : Reader) :
    (∀ cell ∈ (visit.ask reader).1, (∃ row, .ok row ∈ reader.items ∧ cell ∈ row) ∨ cell = "") ∧
      (visit.ask reader).2.items <:+ reader.items ∧
      (visit.ask reader).2.shape = reader.shape := by
  cases visit with
  | look asked =>
    have answered := answer_ask asked reader
    refine ⟨fun cell member => .inl ?_, ?_, shape_ask asked reader⟩
    · cases found : reader.items with
      | nil =>
        simp only [Visit.ask, answered, found] at member
        exact absurd member List.not_mem_nil
      | cons item others =>
        simp only [Visit.ask, answered, found] at member
        cases item with
        | error error => exact absurd member List.not_mem_nil
        | ok row => exact ⟨row, List.mem_cons_self, member⟩
    · exact (items_ask asked reader).symm ▸ left_suffix asked reader.items
  | cells key limit =>
    obtain ⟨first, left, kept⟩ := pull_spec limit reader
    simp only [Visit.ask]
    split
    · exact ⟨by simp, List.suffix_rfl, rfl⟩
    next index found =>
      refine ⟨fun cell member => ?_, left, kept⟩
      simp only [pullCells, List.mem_filterMap, List.mem_map] at member
      obtain ⟨_, ⟨item, taken, rfl⟩, same⟩ := member
      cases item with
      | error error => cases same
      | ok row =>
        cases same
        rcases cell_mem_or_empty row index with member | empty
        · exact .inl ⟨row, first _ taken, member⟩
        · exact .inr empty
  | cellsWithRows key limit =>
    obtain ⟨first, left, kept⟩ := pull_spec limit reader
    simp only [Visit.ask]
    split
    · exact ⟨by simp, List.suffix_rfl, rfl⟩
    next index found =>
      refine ⟨fun cell member => ?_, left, kept⟩
      obtain ⟨row, taken, member⟩ := List.mem_flatMap.mp member
      have come := first _ (mem_rowsOf.mp taken)
      rcases List.mem_append.mp member with member | last
      · exact .inl ⟨row, come, member⟩
      · rw [List.mem_singleton.mp last]
        rcases cell_mem_or_empty row index with member | empty
        · exact .inl ⟨row, come, member⟩
        · exact .inr empty

/-- Whatever calls are made, only cells of the rows to come are shown, and what is known of the rows
stays as it is. -/
theorem exposed_spec (visits : List Visit) (reader : Reader) :
    (∀ cell ∈ reader.exposed visits, (∃ row, .ok row ∈ reader.items ∧ cell ∈ row) ∨ cell = "") ∧
      (reader.visited visits).shape = reader.shape := by
  -- A call leaves an end of the items, so what a later one shows was to come from the start.
  induction visits generalizing reader with
  | nil => exact ⟨by simp [exposed], rfl⟩
  | cons visit visits ih =>
    obtain ⟨now, left, kept⟩ := visit_spec visit reader
    obtain ⟨later, same⟩ := ih (visit.ask reader).2
    refine ⟨fun cell member => ?_, same.trans kept⟩
    rcases List.mem_append.mp member with member | member
    · exact now cell member
    · rcases later cell member with ⟨row, come, held⟩ | empty
      · exact .inl ⟨row, left.subset come, held⟩
      · exact .inr empty

end ResumableCsv.Reader
