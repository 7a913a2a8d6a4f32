import ResumableCsv.Proofs.NulBytes.Stream
import ResumableCsv.Proofs.Reader.Built
import ResumableCsv.Proofs.Reader.Visits
import ResumableCsv.Proofs.Record.Spelling
import ResumableCsv.Proofs.Text.Decoded
import ResumableCsv.Proofs.Text.Split

/-!
NUL characters and readers that are to remove or to refuse them. No call shows one in a row, but the
header row is not looked at: it is free of them only where they were taken out of the bytes before.
-/

namespace ResumableCsv

open Record

variable {row kept piece : Row} {options : ReaderOptions} {origin : Origin} {reader : Reader}

namespace NulPolicy

theorem hasNul_stripCell (cell : String) : hasNul (stripCell cell) = false := by
  simp [hasNul_eq_false_iff, stripCell]

theorem nulFree_apply {policy : NulPolicy} (guarded : policy ≠ .keep)
    (passed : policy.apply row = .ok kept) : kept.NulFree := by
  unfold apply at passed
  split at passed
  · exact absurd rfl guarded
  · cases passed
    intro cell member
    obtain ⟨before, _, rfl⟩ := List.mem_map.mp member
    exact hasNul_stripCell before
  · split at passed
    next => cases passed
    next absent =>
      cases passed
      intro cell member
      simpa using List.findIdx?_eq_none_iff.mp absent cell member

end NulPolicy

namespace Row

/-- What stands in a piece of a cell stood in the cell. -/
theorem NulFree.multiplex {index : Nat} {separator : String} (free : row.NulFree)
    (member : piece ∈ row.multiplex index separator) : piece.NulFree := by
  obtain ⟨text, split, rfl⟩ := List.mem_map.mp member
  intro cell held
  rcases List.mem_or_eq_of_mem_set held with held | rfl
  · exact free cell held
  · rw [NulPolicy.hasNul_eq_false_iff, String.toList_ofList]
    intro found
    have whole := Text.mem_of_mem_splitOn _ _ text split _ found
    rcases Reader.cell_mem_or_empty row index with inside | empty
    · exact NulPolicy.hasNul_eq_false_iff.mp (free _ inside) whole
    · rw [empty] at whole
      exact absurd whole List.not_mem_nil

end Row

namespace Reader

theorem nulFree_divide (guarded : reader.nuls ≠ .keep) {item : Except Error Row}
    (member : .ok row ∈ reader.divide item) : row.NulFree := by
  cases checked : item.bind reader.check with
  | error error =>
    rw [divide_of_error checked] at member
    cases List.mem_singleton.mp member
  | ok whole =>
    rw [divide_of_ok checked] at member
    obtain ⟨piece, split, same⟩ := List.mem_map.mp member
    cases same
    have free : whole.NulFree := by
      obtain ⟨given, _, checked⟩ := Outcome.bind_eq_ok_iff.mp checked
      unfold check at checked
      split at checked
      · exact NulPolicy.nulFree_apply guarded checked
      · cases checked
    unfold splitRow at split
    split at split
    · rwa [List.mem_singleton.mp split]
    · exact free.multiplex split

/-- Every row that is to come has been through the NUL policy. -/
theorem nulFree_items {source : Source} {delimiter : UInt8} (guarded : reader.nuls ≠ .keep)
    (built : build options source delimiter = .ok reader) (come : .ok row ∈ reader.items) :
    row.NulFree := by
  rw [items_of_build built] at come
  obtain ⟨item, _, member⟩ := List.mem_flatMap.mp come
  exact nulFree_divide guarded member

end Reader

theorem ne_zero_of_mem_parsedText {blocks : List Bytes} {byte : UInt8}
    (member : byte ∈ parsedText .strip blocks) : byte ≠ 0 := by
  have room : blockSize ≠ 0 := by decide
  have whole : byte ∈ (NulBytes.drain blockSize blocks).flatten := by
    simp only [parsedText, if_true] at member
    cases arriving : NulBytes.drain blockSize blocks with
    | nil => simp [arriving] at member
    | cons first rest =>
      simp only [arriving] at member
      rw [List.flatten_cons]
      rcases List.mem_append.mp member with member | member
      · exact List.mem_append_left _ ((dropMark_suffix first).subset member)
      · exact List.mem_append_right _ member
  rw [NulBytes.flatten_drain room] at whole
  exact NulBytes.ne_zero_of_mem_keptOf whole

theorem nulFree_of_text {dialect : Dialect} {encoding : Encoding} {input : Input} {rest : Source}
    (nonzero : ∀ byte ∈ input.content, byte ≠ 0)
    (step : (Source.text dialect encoding input).next = (.ok (some row), rest)) : row.NulFree := by
  obtain ⟨scanned, scan, read, _⟩ := Source.scan_of_row step
  refine Encoding.nulFree_decodeRow (fun field member byte held => ?_) read
  exact nonzero byte ((scanRecord_sublist scan field member).subset held)

namespace ReaderOptions

variable {source rest : Source} {delimiter : UInt8} {first : Row}

/-- Without stripping, the source is what it would be if NUL characters were to be kept. -/
theorem sourceOn_of_unstripped (unstripped : options.nuls ≠ .strip) (origin : Origin) :
    { options with nuls := .keep }.sourceOn origin = options.sourceOn origin := by
  have same : options.textOf = { options with nuls := .keep }.textOf := by
    funext blocks fault delimiter
    simp only [textOf, parsedText_of_unstripped unstripped]
  cases origin with
  | rows rows => rfl
  | bytes content => simp only [sourceOn, same]
  | path path work =>
    simp only [sourceOn, same]
    rfl

/-- Rows that are split already do not pass the bytes' filter. -/
theorem sourceOn_of_rows (rows : List Row) :
    { options with nuls := .keep }.sourceOn (.rows rows) = options.sourceOn (.rows rows) := rfl

/-- When NUL bytes are taken out of the text, no row read from it holds one. -/
theorem nulFree_of_stripped (stripped : options.nuls = .strip)
    (parsed : ∀ rows, origin ≠ .rows rows)
    (reached : options.sourceOn origin = .ok (source, delimiter))
    (step : source.next = (.ok (some first), rest)) : first.NulFree := by
  obtain ⟨blocks, fault, rfl⟩ : ∃ blocks fault, source = options.textOf blocks fault delimiter := by
    cases origin with
    | path path work =>
      obtain ⟨input, _, reached⟩ := Outcome.do_eq_ok_iff.mp reached
      obtain ⟨blocks, _, reached⟩ := Outcome.do_eq_ok_iff.mp reached
      cases reached
      exact ⟨blocks, input.fault, rfl⟩
    | bytes content =>
      obtain ⟨blocks, _, reached⟩ := Outcome.do_eq_ok_iff.mp reached
      cases reached
      exact ⟨blocks, none, rfl⟩
    | rows rows => exact absurd rfl (parsed rows)
  refine nulFree_of_text (fun byte member => ?_) step
  rw [stripped] at member
  exact ne_zero_of_mem_parsedText member

end ReaderOptions

namespace Reader

/-- A reader that is to remove or to refuse NUL characters shows none of them in a cell, whatever
calls are made. Its header row is the first row of the source. Where NUL bytes are removed from a
text there is none in that row either, but refusing them, and removing them from rows that are split
already, leave it as it is read when they are kept. -/
theorem nuls_of_guarded (guarded : options.nuls ≠ .keep)
    (unnamed : ∀ chosen ∈ options.multiplex, chosen.newColumn = none)
    (opened : options.openOn origin = .ok reader) :
    (∀ visits, (∀ cell ∈ reader.exposed visits, NulPolicy.hasNul cell = false) ∧
      (reader.visited visits).fieldnames = reader.fieldnames) ∧
    ∃ source delimiter first rest, options.sourceOn origin = .ok (source, delimiter) ∧
      source.next = (.ok (some first), rest) ∧
      reader.fieldnames = (if options.noHeaders then none else some first) ∧
      (options.nuls = .strip → (∀ rows, origin ≠ .rows rows) → first.NulFree) ∧
      (options.nuls = .reject ∨ (∃ rows, origin = .rows rows) →
        { options with nuls := .keep }.sourceOn origin = .ok (source, delimiter)) := by
  obtain ⟨source, delimiter, reached, built⟩ := ReaderOptions.openOn_eq_ok_iff.mp opened
  obtain ⟨first, rest, step, headers, _, nuls⟩ := shape_of_build unnamed built
  constructor
  · intro visits
    obtain ⟨shown, kept⟩ := exposed_spec visits reader
    refine ⟨fun cell member => ?_, congrArg (Option.map Headers.fieldnames)
      (congrArg Shape.headers kept)⟩
    rcases shown cell member with ⟨row, come, held⟩ | rfl
    · exact nulFree_items (nuls ▸ guarded) built come cell held
    · rfl
  · refine ⟨source, delimiter, first, rest, reached, step, ?_, ?_, ?_⟩
    · rw [fieldnames, headers]
      split <;> rfl
    · exact fun stripped parsed => ReaderOptions.nulFree_of_stripped stripped parsed reached step
    · rintro (rejected | ⟨rows, rfl⟩)
      · rw [ReaderOptions.sourceOn_of_unstripped (by simp [rejected]), reached]
      · rw [ReaderOptions.sourceOn_of_rows, reached]

/-- NUL bytes are removed from a header row and from a cell. -/
theorem nuls_of_guarded_sample :
    let options : ReaderOptions := { nuls := .strip }
    let origin : Origin := .bytes (Text.bytes "a\x00,b\n1,2\x00\n")
    ∃ reader, options.nuls ≠ .keep ∧ (∀ chosen ∈ options.multiplex, chosen.newColumn = none) ∧
      options.openOn origin = .ok reader ∧
      reader.exposed [.look .read] = ["1", "2"] ∧
      (∀ cell ∈ reader.exposed [.look .read], NulPolicy.hasNul cell = false) ∧
      ∃ first : Row, reader.fieldnames = some first ∧ first.NulFree := by
  intro options origin
  have read : (options.openOn origin).map (·.exposed [.look .read]) = .ok ["1", "2"] := by
    decide +kernel
  obtain ⟨reader, opened, shown⟩ := Outcome.map_eq_ok_iff.mp read
  obtain ⟨calls, _, _, first, _, _, _, headed, parsed, _⟩ :=
    nuls_of_guarded (by decide) (by simp [options]) opened
  exact ⟨reader, by decide, by simp [options], opened, shown, (calls _).1, first, headed,
    parsed rfl (by simp [origin])⟩

/-- A NUL in the header row passes a reader that is to remove or to refuse them. -/
theorem nuls_of_guarded_ne :
    (∃ reader, { nuls := .strip : ReaderOptions }.openOn (.rows [["a\x00"], ["1"]]) = .ok reader ∧
      reader.fieldnames = some ["a\x00"]) ∧
    (∃ reader, { nuls := .reject : ReaderOptions }.openOn (.bytes (Text.bytes "a\x00\n1\n")) =
        .ok reader ∧ reader.fieldnames = some ["a\x00"]) ∧
    NulPolicy.hasNul "a\x00" = true := by
  refine ⟨Outcome.map_eq_ok_iff.mp ?_, Outcome.map_eq_ok_iff.mp ?_, by decide⟩ <;> decide +kernel

end Reader

end ResumableCsv
