import ResumableCsv.Proofs.Reader.Build
import ResumableCsv.Proofs.Reader.Items
import ResumableCsv.Proofs.Text.Split

/-!
Splitting a column is a flat map over plain reading: every row of the plain reader stands for one row
a piece of its cell, in order, and what ends the one ends the other.
-/

namespace ResumableCsv.Reader

/-- The rows that one item stands for when a column is split. -/
def spread (index : Nat) (separator : String) :
    Except Error Row → List (Except Error Row)
  | .ok row => (row.multiplex index separator).map .ok
  | .error error => [.error error]

variable {reader settled : Reader} {items : List (Except Error Row)} {index : Nat}
  {separator : String}

theorem untilError_flatMap_spread (index : Nat) (separator : String)
    (items : List (Except Error Row)) :
    untilError (items.flatMap (spread index separator)) =
      (untilError items).flatMap (spread index separator) := by
  induction items with
  | nil => rfl
  | cons item items ih =>
    cases item with
    | error error => rfl
    | ok row =>
      calc untilError ((.ok row :: items).flatMap (spread index separator))
        _ = untilError ((row.multiplex index separator).map .ok ++
              items.flatMap (spread index separator)) := rfl
        _ = (row.multiplex index separator).map .ok ++
              (untilError items).flatMap (spread index separator) := by
            rw [untilError_rows, ih]
        _ = (untilError (.ok row :: items)).flatMap (spread index separator) := rfl

theorem opened_flatMap_spread (index : Nat) (separator : String)
    (items : List (Except Error Row)) :
    opened (items.flatMap (spread index separator)) =
      (opened items).map (·.flatMap (spread index separator)) := by
  cases items with
  | nil => rfl
  | cons item items =>
    cases item with
    | error error => rfl
    | ok row =>
      have whole := untilError_flatMap_spread index separator (.ok row :: items)
      obtain ⟨piece, pieces, split⟩ : ∃ piece pieces, row.multiplex index separator =
          piece :: pieces :=
        List.exists_cons_of_ne_nil (by simp [Row.multiplex, Text.splitOn_ne_nil])
      have first : (Except.ok row :: items).flatMap (spread index separator) =
          .ok piece :: (pieces.map .ok ++ items.flatMap (spread index separator)) := by
        simp [spread, split]
      rw [first] at whole ⊢
      exact congrArg Except.ok whole

/-- The items of a split reader are those of the unsplit one, each spread out. -/
theorem items_split (ready : reader.phase = .ready) (unsplit : reader.split = none)
    (unbuffered : reader.buffer = []) (single : reader.expanded = []) :
    Reader.items { reader with split := some (index, separator) } =
      reader.items.flatMap (spread index separator) := by
  have divided : Reader.divide { reader with split := some (index, separator) } =
      fun item => (reader.divide item).flatMap (spread index separator) := by
    funext item
    have same : Reader.check { reader with split := some (index, separator) } = reader.check := rfl
    cases checked : item.bind reader.check with
    | error error =>
      rw [divide_of_error checked, divide_of_error (by rw [same, checked])]
      rfl
    | ok row =>
      rw [divide_of_ok checked, divide_of_ok (by rw [same, checked])]
      simp [splitRow, unsplit, spread]
  calc Reader.items { reader with split := some (index, separator) }
    _ = reader.raw.flatMap (Reader.divide { reader with split := some (index, separator) }) :=
        items_of_fresh (by exact ready) (by exact unbuffered) (by exact single)
    _ = (reader.raw.flatMap reader.divide).flatMap (spread index separator) := by
        rw [divided, List.flatMap_assoc]
    _ = reader.items.flatMap (spread index separator) := by
        rw [items_of_fresh ready unbuffered single]

/-- A split reader hands out the rows of the plain one spread out, and what fails or ends the one
fails or ends the other. -/
theorem rows_build_split {options : ReaderOptions} (unsplit : options.multiplex = none)
    (direct : options.prebuffer = none) (source : Source) (delimiter : UInt8) {key : ColumnKey}
    (separated : separator ≠ "")
    (found : ∀ first rest, source.next = (.ok (some first), rest) →
      (ofFirstRow options first rest delimiter).columnIndex key = .ok index) :
    (build { options with multiplex := some { column := key, separator } } source delimiter).map
        Reader.rows =
      (build options source delimiter).map fun plain =>
        plain.rows.flatMap (spread index separator) := by
  rcases step : source.next with ⟨error | _ | first, rest⟩
  · simp only [build, step]
    rfl
  · simp only [build, step]
    rfl
  · let base := ofFirstRow options first rest delimiter
    have ready : base.phase = .ready := by
      simp only [base, ofFirstRow]
      split <;> rfl
    have fresh : base.split = none ∧ base.buffer = [] ∧ base.expanded = [] := by
      simp only [base, ofFirstRow]
      split <;> exact ⟨rfl, rfl, rfl⟩
    obtain ⟨unsplit', unbuffered, single⟩ := fresh
    have configured : base.configureMultiplex { column := key, separator } =
        .ok { base with split := some (index, separator) } := by
      have resolved : base.requiredColumn key = .ok index := by
        simp only [requiredColumn, base, found first rest step, Outcome.mapError_ok]
      simp [configureMultiplex, resolved, separated, renameSplit]
      rfl
    have plain : build options source delimiter = base.settle := by
      rw [build_of_first step, unsplit, direct]
      rfl
    have spreading : build { options with multiplex := some { column := key, separator } } source
        delimiter = Reader.settle { base with split := some (index, separator) } := by
      rw [build_of_first step, direct]
      change (base.configureMultiplex _ >>= prebuffered none) >>= settle = _
      rw [configured]
      rfl
    rw [plain, spreading, rows_settle (by exact ready) (by exact unbuffered),
      items_split ready unsplit' unbuffered single, opened_flatMap_spread,
      ← rows_settle ready unbuffered]
    cases base.settle <;> rfl

/-- Multiplexing is a flat map over plain reading: a row stands for one row a piece of its cell, the
pieces being those between the leftmost occurrences of the separator that do not overlap. -/
theorem rows_of_multiplexed {options : ReaderOptions} (unsplit : options.multiplex = none)
    (direct : options.prebuffer = none) (source : Source) (delimiter : UInt8) {key : ColumnKey}
    (separated : separator ≠ "")
    (found : ∀ first rest, source.next = (.ok (some first), rest) →
      (ofFirstRow options first rest delimiter).columnIndex key = .ok index) :
    (build { options with multiplex := some { column := key, separator } } source delimiter).map
        Reader.rows =
      ((build options source delimiter).map fun plain =>
        plain.rows.flatMap (spread index separator)) ∧
    ∀ plain, build options source delimiter = .ok plain → ∀ row, .ok row ∈ plain.rows →
      ∃ (inside : index < row.length) (pieces : List (List Char)),
        spread index separator (.ok row) =
          (pieces.map fun piece => .ok (row.set index (String.ofList piece))) ∧
        Text.Splits separator.toList row[index].toList pieces ∧
        (∀ piece ∈ pieces, ¬separator.toList <:+: piece) ∧
        Text.join separator.toList pieces = row[index].toList := by
  refine ⟨rows_build_split unsplit direct source delimiter separated found, ?_⟩
  intro plain built row member
  have inside : index < row.length := by
    rcases step : source.next with ⟨error | _ | first, rest⟩
    · simp [build, step] at built
    · simp [build, step] at built
    · let base := ofFirstRow options first rest delimiter
      have settled : base.settle = .ok plain := by
        rw [build_of_first step, unsplit, direct] at built
        exact built
      calc index
        _ < base.rowLength := (even_ofFirstRow ..).columnIndex_lt (found first rest step)
        _ = plain.rowLength := (congrArg Shape.rowLength (shape_settle settled)).symm
        _ = row.length := ((even_of_build built).rows row member).symm
  have apart : separator.toList ≠ [] := by simpa using separated
  have cell : row.cell index = row[index] := by simp [Row.cell, inside]
  have splits := Text.splits_splitOn apart row[index].toList
  refine ⟨inside, Text.splitOn separator.toList row[index].toList, ?_, splits,
    splits.not_infix apart, Text.join_splitOn _ _⟩
  simp [spread, Row.multiplex, cell]

theorem rows_of_multiplexed_sample :
    let source : Source := .listed [["name", "tags"], ["ann", "x;;y"], ["bob"]]
    ∃ plain, build {} source 0x2C = .ok plain ∧
      (build { multiplex := some { column := .named "tags", separator := ";" } } source 0x2C).map
          Reader.rows = .ok (plain.rows.flatMap (spread 1 ";")) ∧
      ∃ pieces : List (List Char),
        spread 1 ";" (.ok ["ann", "x;;y"]) =
          (pieces.map fun piece => .ok ["ann", String.ofList piece]) ∧
        Text.Splits ";".toList "x;;y".toList pieces := by
  intro source
  obtain ⟨plain, built⟩ : ∃ plain, build {} source 0x2C = .ok plain := ⟨_, rfl⟩
  have first : .ok ["ann", "x;;y"] ∈ plain.rows := by
    cases built
    rw [rows_of_next_some rfl]
    exact List.mem_cons_self
  have separated : ";" ≠ "" := by decide
  have found : ∀ first rest, source.next = (.ok (some first), rest) →
      (ofFirstRow {} first rest 0x2C).columnIndex (.named "tags") = .ok 1 := by
    rintro first rest ⟨⟩
    decide
  obtain ⟨same, pieces⟩ :=
    rows_of_multiplexed (by rfl) (by rfl) source 0x2C separated found
  obtain ⟨_, split, spreading, splits, _⟩ := pieces plain built _ first
  exact ⟨plain, built, by rw [same, built]; rfl, split, spreading, splits⟩

end ResumableCsv.Reader
