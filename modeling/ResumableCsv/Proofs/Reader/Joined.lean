import ResumableCsv.Cell.Value
import ResumableCsv.Proofs.Reader.Multiplexed
import ResumableCsv.Proofs.Reader.Prebuffered
import ResumableCsv.Proofs.Reader.Renamed
import ResumableCsv.Proofs.Text.Split

/-!
Lists in cells: a list is written as its texts with a separator between them, and a reader that
splits the column on that separator gives one row an item again, also for empty items and for lists
of one item, whose cell holds no separator at all.
-/

namespace ResumableCsv

variable {options : CellOptions} {separator : Char} {index : Nat}

theorem CellOptions.cells_eq_map (options : CellOptions) (values : List CellValue) :
    options.cells values = values.map options.cell := by
  induction values with
  | nil => rfl
  | cons value values ih => rw [cells, ih, List.map_cons]

/-- A row with a list in one column is split into a row for every value of the list. -/
theorem Row.multiplex_list (single : options.pluralSeparator = String.singleton separator)
    {row : Row} (inside : index < row.length) {values : List CellValue} (filled : values ≠ [])
    (apart : ∀ value ∈ values, separator ∉ (options.cell value).toList) :
    Row.multiplex index (String.singleton separator)
        (row.set index (options.cell (.list values))) =
      values.map fun value => row.set index (options.cell value) := by
  let pieces := values.map fun value => (options.cell value).toList
  have held : Row.cell (row.set index (options.cell (.list values))) index =
      options.cell (.list values) := by
    simp [Row.cell, inside]
  have text : (options.cell (.list values)).toList = Text.join [separator] pieces := by
    simp [CellOptions.cell, CellOptions.joined, CellOptions.cells_eq_map, single, pieces,
      Function.comp_def]
  have split : Text.splitOn [separator] (Text.join [separator] pieces) = pieces :=
    Text.splitOn_join (by simpa [pieces] using filled) (by simpa [pieces] using apart)
  rw [Row.multiplex, held, text, String.toList_singleton, split]
  simp [pieces]

theorem Source.items_listed (rows : List Row) : (Source.listed rows).items = rows.map .ok := by
  induction rows with
  | nil => exact items_of_end rfl
  | cons row rows ih => rw [items_of_row rfl, ih, List.map_cons]

namespace Reader

variable {reader : Reader} {rows : List Row} {key : ColumnKey} {newColumn : Option String}

/-- Rows of one length that are split already are read as the rows they are divided into. -/
theorem rows_build_divided {options : ReaderOptions} (kept : options.nuls = .keep)
    {separator : String} (separated : separator ≠ "")
    (split : options.multiplex = some ⟨key, separator, newColumn⟩) {first : Row}
    {others due : List Row} {delimiter : UInt8} {headers : Option Headers}
    (found : (ofFirstRow options first (.listed others) delimiter).columnIndex key = .ok index)
    (renamed : renameSplit (ofFirstRow options first (.listed others) delimiter).headers index
      newColumn = .ok headers)
    (unread : (ofFirstRow options first (.listed others) delimiter).raw = due.map .ok)
    (even : ∀ row ∈ due, row.length = first.length) :
    ∃ reader, build options (.listed (first :: others)) delimiter = .ok reader ∧
      reader.rows = (due.flatMap (Row.multiplex index separator)).map .ok := by
  let base := ofFirstRow options first (.listed others) delimiter
  have fresh : base.Fresh := fresh_ofFirstRow options first (.listed others) delimiter
  have shape : base.shape = _ := shape_ofFirstRow options first (.listed others) delimiter
  have single : base.expanded = [] := by
    simp only [base, ofFirstRow]
    split <;> rfl
  let configured : Reader := { base with headers := headers, split := some (index, separator) }
  have divided : multiplexed options.multiplex base = .ok configured := by
    rw [split]
    exact configureMultiplex_eq_ok_iff.mpr ⟨index, headers, found, separated, renamed, rfl⟩
  have pieces : ∀ row ∈ due, configured.divide (.ok row) =
      (row.multiplex index separator).map .ok := by
    intro row member
    have length : row.length = configured.rowLength :=
      (even row member).trans (congrArg Shape.rowLength shape).symm
    have policy : configured.nuls = .keep := (congrArg Shape.nuls shape).trans kept
    have checked : (Except.ok row).bind configured.check = .ok row := by
      simp [Except.bind, check, length, policy, NulPolicy.apply]
    rw [divide_of_ok checked, splitRow]
  have coming : configured.coming = (due.flatMap (Row.multiplex index separator)).map .ok := by
    calc configured.coming
      _ = configured.raw.flatMap configured.divide := by
          rw [Reader.coming, show configured.expanded = [] from single]
          rfl
      _ = (due.map .ok).flatMap configured.divide := by rw [show configured.raw = _ from unread]
      _ = due.flatMap fun row => configured.divide (.ok row) := List.flatMap_map _ _ _
      _ = due.flatMap fun row => (row.multiplex index separator).map .ok :=
          List.flatMap_congr pieces
      _ = (due.flatMap (Row.multiplex index separator)).map .ok := List.map_flatMap.symm
  obtain ⟨reader, finished, rows⟩ :=
    finish_of_coming (fresh.multiplexed divided) coming options.prebuffer
  refine ⟨reader, ?_, rows⟩
  obtain ⟨filled, ahead, last⟩ := Outcome.do_eq_ok_iff.mp finished
  rw [build_of_first rfl]
  exact Outcome.do_eq_ok_iff.mpr
    ⟨filled, Outcome.do_eq_ok_iff.mpr ⟨configured, divided, ahead⟩, last⟩

/-- With a header row the split column is found in it, and it has a name to change. -/
theorem rows_build_headed {options : ReaderOptions} (kept : options.nuls = .keep)
    {separator : String} (separated : separator ≠ "")
    (split : options.multiplex = some ⟨key, separator, newColumn⟩)
    (headed : options.noHeaders = false) {header : List String}
    (found : (Headers.ofNames header).resolve key = .ok index)
    (even : ∀ row ∈ rows, row.length = header.length) (delimiter : UInt8) :
    ∃ reader, build options (.listed (header :: rows)) delimiter = .ok reader ∧
      reader.rows = (rows.flatMap (Row.multiplex index separator)).map .ok := by
  have base : ofFirstRow options header (.listed rows) delimiter =
      { source := .listed rows, headers := some (.ofNames header), rowLength := header.length,
        delimiter := delimiter, nuls := options.nuls } := by
    simp [ofFirstRow, headed]
  obtain ⟨headers, renamed⟩ : ∃ headers, renameSplit
      (ofFirstRow options header (.listed rows) delimiter).headers index newColumn =
        .ok headers := by
    rw [base]
    cases newColumn with
    | none => exact ⟨_, rfl⟩
    | some new =>
      have inside : index < header.length := Headers.resolve_lt found
      exact ⟨_, renameSplit_some_eq_ok_iff.mpr
        ⟨.ofNames header, header[index], rfl, List.getElem?_eq_getElem inside, rfl⟩⟩
  refine rows_build_divided kept separated split ?_ renamed ?_ even
  · rw [base]
    exact found
  · rw [base]
    exact Source.items_listed rows

/-- Without a header row the split column is counted off, and the first row is one of the rows. -/
theorem rows_build_headless {options : ReaderOptions} (kept : options.nuls = .keep)
    {separator : String} (separated : separator ≠ "")
    (split : options.multiplex = some ⟨.position index, separator, none⟩)
    (headless : options.noHeaders = true) {width : Nat} (inside : index < width)
    (filled : rows ≠ []) (even : ∀ row ∈ rows, row.length = width) (delimiter : UInt8) :
    ∃ reader, build options (.listed rows) delimiter = .ok reader ∧
      reader.rows = (rows.flatMap (Row.multiplex index separator)).map .ok := by
  obtain ⟨first, others, rfl⟩ := List.exists_cons_of_ne_nil filled
  have length : first.length = width := even first List.mem_cons_self
  have base : ofFirstRow options first (.listed others) delimiter =
      { source := .listed others, headers := none, rowLength := first.length,
        delimiter := delimiter, lookahead := some first, nuls := options.nuls } := by
    simp [ofFirstRow, headless]
  have found : (ofFirstRow options first (.listed others) delimiter).columnIndex
      (.position index) = .ok index := by
    simp [base, columnIndex, length, inside]
  have renamed : renameSplit (ofFirstRow options first (.listed others) delimiter).headers index
      none = .ok none := by
    rw [base]
    rfl
  refine rows_build_divided kept separated split found renamed ?_
    fun row member => (even row member).trans length.symm
  rw [base, raw, Source.items_listed]
  rfl

/-- Splitting a column undoes writing lists in it: rows that hold the text of a list in that column
come back as one row for every item, in order, with the item in the column and the other cells as
they were. -/
theorem rows_of_joined (cells : CellOptions)
    (single : cells.pluralSeparator = String.singleton separator) {options : ReaderOptions}
    (kept : options.nuls = .keep)
    (split : options.multiplex = some ⟨key, String.singleton separator, newColumn⟩)
    {lists : List (Row × List String)} (filled : ∀ list ∈ lists, list.2 ≠ [])
    (apart : ∀ list ∈ lists, ∀ item ∈ list.2, separator ∉ item.toList) :
    let joined := lists.map fun (row, items) =>
      row.set index (cells.cell (.list (items.map .text)))
    let parted := lists.flatMap fun (row, items) => items.map fun item => row.set index item
    (∀ header, options.noHeaders = false → (Headers.ofNames header).resolve key = .ok index →
      (∀ list ∈ lists, list.1.length = header.length) →
      ∃ reader, options.openRows (header :: joined) = .ok reader ∧
        reader.rows = parted.map .ok) ∧
    (∀ width, options.noHeaders = true → newColumn = none → key = .position index →
      index < width → lists ≠ [] → (∀ list ∈ lists, list.1.length = width) →
      ∃ reader, options.openRows joined = .ok reader ∧ reader.rows = parted.map .ok) := by
  intro joined parted
  have separated : String.singleton separator ≠ "" := by
    simp [← String.toList_inj]
  have undone {width : Nat} (inside : index < width)
      (even : ∀ list ∈ lists, list.1.length = width) :
      joined.flatMap (Row.multiplex index (String.singleton separator)) = parted := by
    rw [List.flatMap_map]
    refine List.flatMap_congr fun (row, items) member => ?_
    have within : index < row.length := (even _ member).symm ▸ inside
    have texts : ∀ value ∈ items.map CellValue.text, separator ∉ (cells.cell value).toList := by
      simpa [CellOptions.cell] using apart _ member
    rw [Row.multiplex_list single within (by simpa using filled _ member) texts, List.map_map]
    rfl
  have sized {width : Nat} (even : ∀ list ∈ lists, list.1.length = width) :
      ∀ row ∈ joined, row.length = width := by
    refine List.forall_mem_map.mpr fun (row, items) member => ?_
    rw [List.length_set]
    exact even _ member
  constructor
  · intro header headed found even
    rw [← undone (Headers.resolve_lt found) even]
    exact rows_build_headed kept separated split headed found (sized even) _
  · rintro width headless rfl rfl inside some_list even
    rw [← undone inside even]
    exact rows_build_headless kept separated split headless inside
      (by simpa [joined] using some_list) (sized even) _

/-- A list that begins and ends with empty texts, behind a separator of two bytes, with its column
renamed; and lists in a column that is counted off. -/
theorem rows_of_joined_sample :
    let cells : CellOptions := { pluralSeparator := "·" }
    let tags := cells.cell (.list [.text "", .text "né", .text ""])
    let named : ReaderOptions :=
      { multiplex := some ⟨.named "tags", "·", some "tag"⟩, prebuffer := some 60 }
    let counted : ReaderOptions :=
      { noHeaders := true, multiplex := some ⟨.position 1, "·", none⟩ }
    tags = "·né·" ∧
      (∃ reader, named.openRows [["name", "tags"], ["ann", tags], ["bob", "x"]] = .ok reader ∧
        reader.rows =
          [.ok ["ann", ""], .ok ["ann", "né"], .ok ["ann", ""], .ok ["bob", "x"]]) ∧
      ∃ reader, counted.openRows [["ann", tags], ["bob", "x"]] = .ok reader ∧
        reader.rows = [.ok ["ann", ""], .ok ["ann", "né"], .ok ["ann", ""], .ok ["bob", "x"]] := by
  intro cells tags named counted
  let lists : List (Row × List String) :=
    [(["ann", "-"], ["", "né", ""]), (["bob", "-"], ["x"])]
  have filled : ∀ list ∈ lists, list.2 ≠ [] := by decide
  have apart : ∀ list ∈ lists, ∀ item ∈ list.2, '·' ∉ item.toList := by decide
  have single : cells.pluralSeparator = String.singleton '·' := by decide
  have even : ∀ list ∈ lists, list.1.length = 2 := by decide
  obtain ⟨headed, _⟩ :=
    @rows_of_joined '·' 1 (.named "tags") (some "tag") cells single named rfl (by decide) lists
      filled apart
  have joined : (lists.map fun (row, items) =>
      row.set 1 (cells.cell (.list (items.map .text)))) = [["ann", tags], ["bob", "x"]] := by
    decide
  obtain ⟨_, headless⟩ :=
    @rows_of_joined '·' 1 (.position 1) none cells single counted rfl (by decide) lists filled apart
  rw [joined] at headed headless
  exact ⟨by decide, headed ["name", "tags"] rfl (by decide) even,
    headless 2 rfl rfl rfl (by decide) (by decide) even⟩

end Reader

end ResumableCsv
