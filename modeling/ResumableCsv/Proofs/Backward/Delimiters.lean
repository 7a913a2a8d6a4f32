import ResumableCsv.Proofs.Backward.Open
import ResumableCsv.Proofs.Reader.Built
import ResumableCsv.Proofs.Reader.Documents
import ResumableCsv.Proofs.Record.Sniff

/-!
The delimiters that are guessed from the two ends. Both readers go by the first line of the file,
but the one from the end looks at a shorter sample of it.
-/

namespace ResumableCsv

open Sniff

theorem dropMark_append_lineFeed (before after : Bytes) :
    dropMark (before ++ Record.lineFeed :: after) =
      dropMark before ++ Record.lineFeed :: after := by
  match before with
  | first :: second :: third :: rest => exact dropMark_append _ (by simp [byteOrderMark])
  | [] | [_] | [_, _] => simp [dropMark, byteOrderMark, Record.lineFeed, List.isPrefixOf]

theorem count_dropMark (content : Bytes) :
    (dropMark content).count doubleQuote = content.count doubleQuote := by
  by_cases marked : byteOrderMark <+: content
  · obtain ⟨rest, rfl⟩ := marked
    have unquoted : byteOrderMark.count doubleQuote = 0 := by decide
    rw [dropMark_byteOrderMark, List.count_append, unquoted, Nat.zero_add]
  · rw [dropMark_of_unmarked marked]

/-- A sample that reaches the end of the first line shows that line. -/
theorem openLine_sample {before after : Bytes} {size : Nat}
    (outside : before.count doubleQuote % 2 = 0) (reached : before.length < size) :
    openLine false (dropMark ((before ++ Record.lineFeed :: after).take size)) =
      openLine false (dropMark before) := by
  obtain ⟨more, rfl⟩ := Nat.exists_eq_add_of_lt reached
  rw [Nat.add_assoc, List.take_length_add_append, List.take_succ_cons, dropMark_append_lineFeed]
  exact openLine_append_lineFeed _ (by rwa [count_dropMark])

theorem ReaderOptions.delimiter_of_openPath {options : ReaderOptions} {work : Workspace}
    {path : String} {content : Bytes} {reader : Reader} (unchosen : options.delimiter = none)
    (unmarked : Path.impliedDelimiter? path = none)
    (input : work.openInput path = .ok ⟨content, none⟩)
    (opened : options.openPath path work = .ok reader) :
    reader.delimiter = guess (dropMark (content.take blockSize)) := by
  obtain ⟨other, found, opened⟩ := Outcome.do_eq_ok_iff.mp opened
  rw [input] at found
  cases found
  obtain ⟨blocks, cut, opened⟩ := Outcome.do_eq_ok_iff.mp opened
  have front : blocks.headD [] = dropMark (content.take blockSize) := by
    cases content <;> cases cut <;> rfl
  rw [Reader.delimiter_of_build opened, guessDelimiter, unchosen, unmarked, front]
  rfl

theorem BackwardOptions.delimiter_of_openContent {options : BackwardOptions} {content : Bytes}
    {reader : BackwardReader} (opened : options.openContent none content = .ok reader) :
    reader.dialect.delimiter = guess (dropMark (content.take BackwardReader.sampleSize)) := by
  unfold openContent at opened
  split at opened
  · cases opened
  · extract_lets sample dialect data done at opened
    have built : ∃ parts, done parts = .ok reader := by
      split at opened
      · exact ⟨(none, data.length), opened⟩
      · obtain ⟨parts, _, opened⟩ := Outcome.do_eq_ok_iff.mp opened
        exact ⟨parts, opened⟩
    obtain ⟨_, built⟩ := built
    cases built
    rfl

/-- A semicolon, a long stretch without candidates, two commas, and a row below. -/
def lateCommas (stretch : Nat) : Bytes :=
  0x3B :: (List.replicate stretch 0x78 ++ Text.bytes ",,\n1,2,3\n")

theorem dropMark_lateCommas (stretch size : Nat) :
    dropMark ((lateCommas stretch).take size) = (lateCommas stretch).take size := by
  cases size <;> simp [lateCommas, dropMark, byteOrderMark, List.isPrefixOf]

theorem plain_stretch (stretch : Nat) :
    ∀ byte ∈ 0x3B :: List.replicate stretch 0x78,
      byte ≠ doubleQuote ∧ byte ≠ Record.lineFeed := by
  simp [doubleQuote, Record.lineFeed]

/-- A sample of the stretch shows the semicolon alone. -/
theorem guess_lateCommas_short {stretch size : Nat} (short : size ≤ stretch) :
    guess (dropMark ((lateCommas stretch).take (size + 1))) = 0x3B := by
  rw [guess_eq_iff]
  have line := openLine_append (plain_stretch size) []
  rw [dropMark_lateCommas, lateCommas, List.take_succ_cons,
    List.take_append_of_le_length (by simpa using short), List.take_replicate,
    Nat.min_eq_left short, Leads, ← List.append_nil (0x3B :: _), line]
  exact ⟨[Path.comma, Path.tab], [0x7C], rfl,
    by simp [Path.comma, Path.tab, openLine, List.count_replicate],
    by simp [openLine, List.count_replicate]⟩

/-- A sample of the whole line shows the two commas too. -/
theorem guess_lateCommas_long {stretch size : Nat} (long : (lateCommas stretch).length ≤ size) :
    guess (dropMark ((lateCommas stretch).take size)) = Path.comma := by
  rw [guess_eq_iff]
  have line := openLine_append (plain_stretch stretch) (Text.bytes ",,\n1,2,3\n")
  have later : openLine false (Text.bytes ",,\n1,2,3\n") = [Path.comma, Path.comma] := by decide
  rw [dropMark_lateCommas, List.take_of_length_le long, lateCommas, Leads, ← List.cons_append, line,
    later]
  exact ⟨[], [Path.tab, 0x3B, 0x7C], rfl, by simp,
    by simp [Path.comma, Path.tab, List.count_replicate]⟩

theorem ReaderOptions.openPath_of_guess {options : ReaderOptions} {work : Workspace} {path : String}
    {content : Bytes} {delimiter : UInt8} (unchosen : options.delimiter = none)
    (unmarked : Path.impliedDelimiter? path = none)
    (input : work.openInput path = .ok ⟨content, none⟩)
    (guessed : guess (dropMark (content.take blockSize)) = delimiter) :
    options.openPath path work =
      { options with delimiter := some delimiter }.openPath path work := by
  obtain ⟨blocks, cut, front⟩ : ∃ blocks, Input.blocks ⟨content, none⟩ = .ok blocks ∧
      blocks.headD [] = dropMark (content.take blockSize) := by
    cases content <;> exact ⟨_, rfl, rfl⟩
  have chosen : options.guessDelimiter path blocks = delimiter := by
    rw [guessDelimiter, unchosen, unmarked, front]
    exact guessed
  simp only [openPath, input, Outcome.mapError_ok, Outcome.ok_bind, cut, chosen]
  rfl

theorem BackwardOptions.openContent_of_guess {options : BackwardOptions} {content : Bytes}
    {delimiter : UInt8}
    (guessed : guess (dropMark (content.take BackwardReader.sampleSize)) = delimiter) :
    options.openContent none content = options.openContent (some delimiter) content := by
  rw [guess] at guessed
  simp only [openContent, Option.none_or, guessed, Option.some_or, Option.getD_some]

/-- The same text as lines of bare fields between commas. -/
def lateDocument (stretch : Nat) : Record.Document :=
  { lines := [⟨[⟨false, 0x3B :: List.replicate stretch 0x78⟩, ⟨false, []⟩, ⟨false, []⟩], false⟩,
      ⟨[⟨false, [0x31]⟩, ⟨false, [0x32]⟩, ⟨false, [0x33]⟩], false⟩] }

variable {stretch : Nat} {work : Workspace} {path : String}

theorem bytes_late :
    Text.bytes ",,\n1,2,3\n" = [0x2C, 0x2C, 0x0A, 0x31, 0x2C, 0x32, 0x2C, 0x33, 0x0A] := by
  decide

theorem length_lateCommas : (lateCommas stretch).length = stretch + 10 := by
  simp [lateCommas, bytes_late]

theorem text_lateDocument :
    (lateDocument stretch).text ⟨Path.comma, 0x22⟩ = lateCommas stretch := by
  simp [lateDocument, lateCommas, bytes_late, Record.Document.text, Record.linesText,
    Record.Line.text, Record.rowText, Record.Spelled.text, Record.Line.ending, Path.comma,
    Record.lineFeed]

theorem fair_lateDocument : (lateDocument stretch).Fair ⟨Path.comma, 0x22⟩ := by
  simp [lateDocument, Record.Document.Fair, Record.Document.rows, Record.Spelled.Fair,
    Record.needsQuotes_eq_false_iff, Path.comma, Record.isTerminator, Record.lineFeed,
    Record.carriageReturn]

theorem dropMark_dropMark_lateCommas :
    dropMark (dropMark (lateCommas stretch)) = lateCommas stretch := by
  have whole := dropMark_lateCommas stretch (lateCommas stretch).length
  rw [List.take_length] at whole
  rw [whole, whole]

theorem exists_openPath_lateCommas (plain : Workspace.Plain path)
    (unmarked : Path.impliedDelimiter? path = none)
    (held : work.file? path = some (lateCommas stretch))
    (long : (lateCommas stretch).length ≤ blockSize) :
    ∃ reader, ({} : ReaderOptions).openPath path work = .ok reader ∧
      reader.delimiter = Path.comma := by
  obtain ⟨names, named⟩ : ∃ names : Row,
      names.map Text.bytes = [0x3B :: List.replicate stretch 0x78, [], []] :=
    exists_row_of_ascii (by simp)
  have records : ((lateDocument stretch).records ⟨Path.comma, 0x22⟩).map
      (·.map Record.Spelled.content) = (names :: [["1", "2", "3"]]).map (·.map Text.bytes) := by
    have digits : [["1", "2", "3"]].map (·.map Text.bytes) = [[[0x31], [0x32], [0x33]]] := by decide
    rw [List.map_cons, named, digits]
    simp [lateDocument, Record.Document.records, Record.Document.rows, Record.rowText,
      Record.Spelled.text]
  have length : names.length = 3 := by simpa using congrArg List.length named
  have input := Workspace.openInput_of_plain plain held
  have guessed := guess_lateCommas_long long
  have readable : ReaderOptions.Plain { delimiter := some Path.comma } ⟨Path.comma, 0x22⟩ :=
    ⟨rfl, rfl, rfl, rfl, rfl⟩
  obtain ⟨reader, opened, _⟩ := ReaderOptions.openPath_of_document readable
    ⟨by decide, by decide, by decide⟩ fair_lateDocument records (by simp [length])
    (by rw [dropMark_dropMark_lateCommas, text_lateDocument]) plain held
  have reached : ({} : ReaderOptions).openPath path work = .ok reader := by
    rw [ReaderOptions.openPath_of_guess rfl unmarked input guessed]
    exact opened
  exact ⟨reader, reached,
    (ReaderOptions.delimiter_of_openPath rfl unmarked input reached).trans guessed⟩

theorem exists_openPath_lateCommas_from_end (plain : Workspace.Plain path)
    (unmarked : Path.impliedDelimiter? path = none)
    (held : work.file? path = some (lateCommas stretch))
    (short : BackwardReader.sampleSize ≤ stretch + 1) :
    ∃ reader, ({} : BackwardOptions).openPath path work = .ok reader ∧
      reader.dialect.delimiter = 0x3B := by
  obtain ⟨names, named⟩ : ∃ names : Row,
      names.map Text.bytes = [[], List.replicate stretch 0x78 ++ [0x2C, 0x2C]] :=
    exists_row_of_ascii (by simp [or_imp, forall_and])
  let fields : List Record.Spelled :=
    [⟨false, []⟩, ⟨false, List.replicate stretch 0x78 ++ [0x2C, 0x2C]⟩]
  have fair : ∀ field ∈ fields, field.Fair ⟨0x3B, 0x22⟩ := by
    simp [fields, Record.Spelled.Fair, Record.needsQuotes_eq_false_iff, Record.isTerminator,
      Record.lineFeed, Record.carriageReturn, or_imp, forall_and]
  have closes : Record.Closes (Text.bytes "\n1,2,3\n") := by
    intro byte member
    obtain rfl : Record.lineFeed = byte := Option.some.inj member
    rfl
  have proper : Dialect.Proper ⟨0x3B, 0x22⟩ := ⟨by decide, by decide, by decide⟩
  have scanned := Record.scanRecord_rowText proper fair (by simp [fields, Record.rowText]) closes
  have text : Record.rowText ⟨0x3B, 0x22⟩ fields ++ Text.bytes "\n1,2,3\n" =
      dropMark (dropMark (lateCommas stretch)) := by
    have rest : Text.bytes "\n1,2,3\n" = [0x0A, 0x31, 0x2C, 0x32, 0x2C, 0x33, 0x0A] := by decide
    rw [dropMark_dropMark_lateCommas, lateCommas, bytes_late, rest]
    simp [fields, Record.rowText, Record.Spelled.text]
  have same : fields.map Record.Spelled.content = names.map Text.bytes := named.symm
  rw [text, same] at scanned
  have readable : BackwardOptions.Plain { delimiter := some 0x3B } ⟨0x3B, 0x22⟩ :=
    ⟨rfl, rfl, rfl, rfl⟩
  obtain ⟨reader, opened, state⟩ :=
    BackwardOptions.openContent_of_header readable rfl (by simp [lateCommas]) scanned
  obtain ⟨size, sized⟩ : ∃ size, BackwardReader.sampleSize = size + 1 := ⟨4095, rfl⟩
  have guessed := guess_lateCommas_short (show size ≤ stretch by omega)
  rw [← sized] at guessed
  refine ⟨reader, ?_, congrArg Dialect.delimiter state.dialect_eq⟩
  rw [BackwardOptions.openPath, Workspace.readUnpacked_of_plain plain held, unmarked]
  exact (BackwardOptions.openContent_of_guess guessed).trans opened

/-- Without a delimiter asked for or implied by the name of the file, both readers take the
candidate that leads in a sample from the start of the file. The samples differ in size, so they
agree just when the leader of the shorter one leads in the longer one too. They do when the file is
not longer than the shorter sample, and when its first line ends within it. The path is that of a
file, whose first block comes in full, for a packed file once it is unpacked. -/
theorem delimiters_of_openPath {options : ReaderOptions} {fromEnd : BackwardOptions}
    {work : Workspace} {path : String} {forward : Reader} {backward : BackwardReader}
    (named : Path.isConsole path = false) (unmarked : Path.impliedDelimiter? path = none)
    (unchosen : options.delimiter = none) (unchosenEnd : fromEnd.delimiter = none)
    (opened : options.openPath path work = .ok forward)
    (openedEnd : fromEnd.openPath path work = .ok backward) :
    ∃ content, work.readUnpacked path = .ok content ∧
      Leads (dropMark (content.take blockSize)) forward.delimiter ∧
      Leads (dropMark (content.take BackwardReader.sampleSize)) backward.dialect.delimiter ∧
      (forward.delimiter = backward.dialect.delimiter ↔
        Leads (dropMark (content.take blockSize)) backward.dialect.delimiter) ∧
      (content.length ≤ BackwardReader.sampleSize →
        forward.delimiter = backward.dialect.delimiter) ∧
      ∀ before after, content = before ++ Record.lineFeed :: after →
        before.count doubleQuote % 2 = 0 → before.length < BackwardReader.sampleSize →
        forward.delimiter = backward.dialect.delimiter := by
  obtain ⟨content, read, openedEnd⟩ := Outcome.do_eq_ok_iff.mp openedEnd
  rw [Outcome.mapError_eq_ok_iff] at read
  have input := Workspace.openInput_of_readUnpacked named read
  have guessed := ReaderOptions.delimiter_of_openPath unchosen unmarked input opened
  rw [unchosenEnd, unmarked] at openedEnd
  have guessedEnd := BackwardOptions.delimiter_of_openContent openedEnd
  have larger : BackwardReader.sampleSize ≤ blockSize := by decide
  refine ⟨content, read, guess_eq_iff.mp guessed.symm, guess_eq_iff.mp guessedEnd.symm, ?_, ?_, ?_⟩
  · rw [guessed, guess_eq_iff]
  · intro short
    rw [guessed, guessedEnd, List.take_of_length_le short,
      List.take_of_length_le (Nat.le_trans short larger)]
  · -- Both samples hold the whole of the first line, and neither shows more than that.
    rintro before after rfl outside reached
    have leads := guess_eq_iff.mp guessedEnd.symm
    rw [Leads, openLine_sample outside reached] at leads
    rw [guessed, guess_eq_iff, Leads, openLine_sample outside (Nat.lt_of_lt_of_le reached larger)]
    exact leads

/-- The first line ends early, so both readers find its semicolons. -/
theorem delimiters_of_openPath_sample :
    let work : Workspace := { files := [("a.txt", Text.bytes "a;b\n1,2;3\n")] }
    ∃ (forward : Reader) (backward : BackwardReader), Path.isConsole "a.txt" = false ∧
      Path.impliedDelimiter? "a.txt" = none ∧
      ({} : ReaderOptions).openPath "a.txt" work = .ok forward ∧
      ({} : BackwardOptions).openPath "a.txt" work = .ok backward ∧
      forward.delimiter = backward.dialect.delimiter := by
  intro work
  have read : (({} : ReaderOptions).openPath "a.txt" work).map (·.delimiter) = .ok 0x3B := by
    decide +kernel
  have readEnd : (({} : BackwardOptions).openPath "a.txt" work).map (·.dialect) =
      .ok ⟨0x3B, 0x22⟩ := by decide +kernel
  obtain ⟨forward, opened, _⟩ := Outcome.map_eq_ok_iff.mp read
  obtain ⟨backward, openedEnd, _⟩ := Outcome.map_eq_ok_iff.mp readEnd
  have named : Path.isConsole "a.txt" = false := by decide +kernel
  have unmarked : Path.impliedDelimiter? "a.txt" = none := by decide +kernel
  have stored : work.readUnpacked "a.txt" = .ok (Text.bytes "a;b\n1,2;3\n") := by decide +kernel
  obtain ⟨content, held, _, _, _, _, ended⟩ :=
    delimiters_of_openPath named unmarked rfl rfl opened openedEnd
  cases held.symm.trans stored
  exact ⟨forward, backward, named, unmarked, opened, openedEnd,
    ended (Text.bytes "a;b") (Text.bytes "1,2;3\n") (by decide) (by decide) (by decide)⟩

/-- The commas of the first line lie behind the shorter sample, and the readers differ. -/
theorem delimiters_of_openPath_ne :
    let work : Workspace := { files := [("a.txt", lateCommas BackwardReader.sampleSize)] }
    ∃ (forward : Reader) (backward : BackwardReader), Path.impliedDelimiter? "a.txt" = none ∧
      ({} : ReaderOptions).openPath "a.txt" work = .ok forward ∧
      ({} : BackwardOptions).openPath "a.txt" work = .ok backward ∧
      forward.delimiter = Path.comma ∧ backward.dialect.delimiter = 0x3B := by
  intro work
  have plain : Workspace.Plain "a.txt" := ⟨by decide +kernel, by decide +kernel⟩
  have unmarked : Path.impliedDelimiter? "a.txt" = none := by decide +kernel
  have normal : Path.normal "a.txt" = "a.txt" := by decide +kernel
  have held : work.file? "a.txt" = some (lateCommas BackwardReader.sampleSize) := by
    simp [Workspace.file?, normal, work]
  have long : (lateCommas BackwardReader.sampleSize).length ≤ blockSize := by
    rw [length_lateCommas]
    decide
  obtain ⟨forward, opened, commas⟩ := exists_openPath_lateCommas plain unmarked held long
  obtain ⟨backward, openedEnd, semicolon⟩ :=
    exists_openPath_lateCommas_from_end plain unmarked held (Nat.le_succ _)
  exact ⟨forward, backward, unmarked, opened, openedEnd, commas, semicolon⟩

end ResumableCsv
