import ResumableCsv.Proofs.Gzip.Stored
import ResumableCsv.Proofs.Reader.Documents
import ResumableCsv.Writer.Basic

/-!
What an output amounts to: the bytes that have arrived and, behind them, those held back on the way.
Writing a record puts its text behind that, whatever the buffers do, and letting go of the output
leaves just that in the file. Also where the file is compressed, a reader is given just that.
-/

namespace ResumableCsv

namespace Workspace

/-- A file can be made at a path. -/
structure Home (work : Workspace) (path : String) : Prop where
  named : path ≠ ""
  unfolded : work.isFolder path = false
  founded : work.hasFolder (Path.parent path) = true

/-- A file that could be made anew has this content. -/
structure Holds (work : Workspace) (path : String) (content : Bytes) : Prop where
  home : work.Home path
  held : work.file? path = some content

theorem Home.put {work : Workspace} {path : String} (home : work.Home path) (other : String)
    (content : Bytes) : (work.put other content).Home path :=
  ⟨home.named, home.unfolded, home.founded⟩

theorem Home.put_holds {work : Workspace} {path : String} (home : work.Home path)
    (content : Bytes) : (work.put path content).Holds path content :=
  ⟨home.put path content, file?_put_self work path content⟩

theorem Home.create {work : Workspace} {path : String} (home : work.Home path) :
    work.create path = .ok (work.put path []) := by
  simp [Workspace.create, home.named, home.unfolded, home.founded]

theorem file?_append {work : Workspace} {path : String} {before : Bytes}
    (held : work.file? path = some before) (content : Bytes) :
    (work.append path content).file? path = some (before ++ content) := by
  rw [append, held]
  exact work.file?_put_self path (before ++ content)

theorem Holds.append {work : Workspace} {path : String} {before : Bytes}
    (holds : work.Holds path before) (content : Bytes) :
    (work.append path content).Holds path (before ++ content) := by
  rw [Workspace.append, holds.held]
  exact holds.home.put_holds _

/-- Cutting a file to the size of a beginning leaves that. -/
theorem Holds.resize {work : Workspace} {path : String} {before others : Bytes}
    (holds : work.Holds path (before ++ others)) :
    work.resize path before.length = .ok (work.put path before) := by
  simp [Workspace.resize, Workspace.read, holds.held, Except.map]

end Workspace

@[simp]
theorem Buffer.content_empty : Buffer.empty.content = [] := rfl

namespace Sink

/-- The file that is extended while a sink is written to. -/
def path? : Sink → Option String
  | .file path | .buffered path _ => some path
  | _ => none

/-- The file of a sink is there, and still empty if it is only filled at the end. -/
def Ready (work : Workspace) : Sink → Prop
  | .memory _ | .console => True
  | .file path | .buffered path _ => ∃ before, work.Holds path before
  | .packed path _ => work.Holds path []

/-- All that was handed to a sink, and what was there before. -/
def text (work : Workspace) : Sink → Bytes
  | .memory content => content
  | .console => work.stdout
  | .file path => (work.file? path).getD []
  | .buffered path held => (work.file? path).getD [] ++ held.content
  | .packed _ content => content

/-- A sink before it has received anything. -/
def emptied : Sink → Sink
  | .memory _ => .memory []
  | .console => .console
  | .file path => .file path
  | .buffered path _ => .buffered path .empty
  | .packed path _ => .packed path []

/-- The path of a sink tells whether its file is compressed. -/
def Named : Sink → Prop
  | .memory _ | .console => True
  | .file path | .buffered path _ => Workspace.Plain path
  | .packed path _ => Path.isConsole path = false ∧ Path.isGzip path = true

/-- What a reader is given of a sink. -/
def input (work : Workspace) : Sink → Except IoFault Input
  | .memory content => .ok ⟨content, none⟩
  | .console => .ok ⟨work.stdout, none⟩
  | .file path | .buffered path _ | .packed path _ => work.openInput path

theorem path?_emptied (sink : Sink) : sink.emptied.path? = sink.path? := by
  cases sink <;> rfl

theorem named_emptied (sink : Sink) : sink.emptied.Named ↔ sink.Named := by
  cases sink <;> rfl

/-- Writing does not make another sink of it. -/
theorem emptied_write (content : Bytes) (sink : Sink) (work : Workspace) :
    (sink.write content work).1.emptied = sink.emptied := by
  cases sink with
  | buffered path held =>
    simp only [write]
    by_cases fits : held.fits content = true <;>
      by_cases large : Buffer.capacity ≤ content.length <;> simp [fits, large, emptied]
  | _ => rfl

theorem path?_write (content : Bytes) (sink : Sink) (work : Workspace) :
    (sink.write content work).1.path? = sink.path? := by
  rw [← path?_emptied, emptied_write, path?_emptied]

theorem ready_of_holds {sink : Sink} {work : Workspace} {path : String} {content : Bytes}
    (target : sink.path? = some path) (holds : work.Holds path content) : sink.Ready work := by
  cases sink with
  | file other | buffered other _ =>
    cases target
    exact ⟨content, holds⟩
  | _ => cases target

/-- What is written comes behind what was written before, and the file stays there. -/
theorem text_write {sink : Sink} {work : Workspace} (ready : sink.Ready work) (content : Bytes) :
    (sink.write content work).1.text (sink.write content work).2 = sink.text work ++ content ∧
      (sink.write content work).1.Ready (sink.write content work).2 := by
  cases sink with
  | memory _ | console | packed _ _ => exact ⟨rfl, ready⟩
  | file path =>
    obtain ⟨before, holds⟩ := ready
    have after := holds.append content
    exact ⟨by simp [write, text, holds.held, after.held], ready_of_holds rfl after⟩
  | buffered path held =>
    obtain ⟨before, holds⟩ := ready
    have moved := holds.append held.content
    have extended := holds.append content
    have both := moved.append content
    by_cases fits : held.fits content = true <;>
      by_cases large : Buffer.capacity ≤ content.length <;>
      simp only [write, fits, large, Bool.false_eq_true, if_true, if_false]
    · -- A piece as large as the buffer fits only behind nothing.
      have nothing : held.content = [] := by
        have bound : held.size + content.length ≤ Buffer.capacity := by
          simpa [Buffer.fits] using fits
        have size := held.size_eq
        have none_held : held.reversed.length = 0 := by omega
        simp [Buffer.content, List.length_eq_zero_iff.mp none_held]
      exact ⟨by simp [text, holds.held, extended.held, nothing], ready_of_holds rfl extended⟩
    · exact ⟨by simp [text, Buffer.content_push], ready_of_holds rfl holds⟩
    · exact ⟨by simp [text, holds.held, both.held], ready_of_holds rfl both⟩
    · exact ⟨by simp [text, holds.held, moved.held, Buffer.content_push],
        ready_of_holds rfl moved⟩

theorem emptied_flush (sink : Sink) (work : Workspace) :
    (sink.flush work).1.emptied = sink.emptied := by
  cases sink <;> rfl

theorem text_flush {sink : Sink} {work : Workspace} (ready : sink.Ready work) :
    (sink.flush work).1.text (sink.flush work).2 = sink.text work ∧
      (sink.flush work).1.Ready (sink.flush work).2 := by
  cases sink with
  | buffered path held =>
    obtain ⟨before, holds⟩ := ready
    have moved := holds.append held.content
    exact ⟨by simp [flush, text, holds.held, moved.held], ready_of_holds rfl moved⟩
  | _ => exact ⟨rfl, ready⟩

/-- Once a sink is let go, its file holds all that was handed to the sink. -/
theorem holds_close {sink : Sink} {work : Workspace} (ready : sink.Ready work) {path : String}
    (target : sink.path? = some path) : (sink.close work).2.Holds path (sink.text work) := by
  cases sink with
  | file other =>
    cases target
    obtain ⟨before, holds⟩ := ready
    simpa [close, flush, text, holds.held] using holds
  | buffered other held =>
    cases target
    obtain ⟨before, holds⟩ := ready
    simpa [close, flush, text, holds.held] using holds.append held.content
  | _ => cases target

/-- A reader of a sink that was let go is given just what was handed to the sink. -/
theorem input_close {sink : Sink} {work : Workspace} (ready : sink.Ready work)
    (named : sink.Named) :
    (sink.close work).1.input (sink.close work).2 = .ok ⟨sink.text work, none⟩ := by
  cases sink with
  | memory _ | console => rfl
  | file _ | buffered _ _ => exact Workspace.openInput_of_plain named (holds_close ready rfl).held
  | packed path content =>
    have packed := (Workspace.Holds.append ready (Gzip.encode content)).held
    rw [List.nil_append] at packed
    change (work.append path (Gzip.encode content)).openInput path = .ok ⟨content, none⟩
    simp [Workspace.openInput, Workspace.read, named.1, named.2, packed, Except.map,
      Gzip.decode_encode]

end Sink

namespace Output

/-- All that was written, held back or not, and what was there before. -/
def text (output : Output) (work : Workspace) : Bytes :=
  output.sink.text work ++ output.pending.content

variable {output : Output} {work : Workspace}

theorem text_release (ready : output.sink.Ready work) :
    (output.release work).1.text (output.release work).2 = output.text work ∧
      (output.release work).1.sink.Ready (output.release work).2 := by
  obtain ⟨same, still⟩ := Sink.text_write ready output.pending.content
  refine ⟨?_, still⟩
  simp only [text, release, Buffer.content_empty, List.append_nil]
  exact same

theorem emptied_release : (output.release work).1.sink.emptied = output.sink.emptied :=
  Sink.emptied_write _ _ _

theorem path?_release : (output.release work).1.sink.path? = output.sink.path? :=
  Sink.path?_write _ _ _

theorem push_of_fits {piece : Bytes} (fits : output.pending.fits piece = true) :
    output.push work piece = ({ output with pending := output.pending.push piece }, work) := by
  simp [push, fits]

theorem push_of_full {piece : Bytes} (full : output.pending.fits piece = false) :
    output.push work piece =
      ({ (output.release work).1 with pending := (output.release work).1.pending.push piece },
        (output.release work).2) := by
  simp [push, full]

theorem text_push (ready : output.sink.Ready work) (piece : Bytes) :
    (output.push work piece).1.text (output.push work piece).2 = output.text work ++ piece ∧
      (output.push work piece).1.sink.Ready (output.push work piece).2 := by
  cases fits : output.pending.fits piece with
  | true =>
    rw [push_of_fits fits]
    exact ⟨by simp [text, Buffer.content_push], ready⟩
  | false =>
    obtain ⟨same, still⟩ := text_release ready
    rw [push_of_full fits]
    refine ⟨?_, still⟩
    simp only [text, Buffer.content_push, ← List.append_assoc] at same ⊢
    rw [same]

theorem emptied_push (piece : Bytes) :
    (output.push work piece).1.sink.emptied = output.sink.emptied := by
  cases fits : output.pending.fits piece with
  | true => rw [push_of_fits fits]
  | false =>
    rw [push_of_full fits]
    exact emptied_release

/-- Pieces come behind what was written before, and go to the same sink. -/
theorem text_pushAll (ready : output.sink.Ready work) (pieces : List Bytes) :
    (output.pushAll pieces work).1.text (output.pushAll pieces work).2 =
        output.text work ++ pieces.flatten ∧
      (output.pushAll pieces work).1.sink.Ready (output.pushAll pieces work).2 ∧
      (output.pushAll pieces work).1.sink.emptied = output.sink.emptied := by
  induction pieces generalizing output work with
  | nil => exact ⟨by simp [pushAll], ready, rfl⟩
  | cons piece rest ih =>
    obtain ⟨same, still⟩ := text_push ready piece
    obtain ⟨text, later, sink⟩ := ih still
    refine ⟨?_, later, sink.trans (emptied_push piece)⟩
    rw [same, List.append_assoc] at text
    exact text

/-- Flushing loses nothing of what was written. -/
theorem text_flush (ready : output.sink.Ready work) :
    (output.flush work).1.text (output.flush work).2 = output.text work ∧
      (output.flush work).1.sink.Ready (output.flush work).2 ∧
      (output.flush work).1.sink.emptied = output.sink.emptied := by
  obtain ⟨same, still⟩ := text_release ready
  obtain ⟨kept, later⟩ := Sink.text_flush still
  have empty : (output.release work).1.pending.content = [] := rfl
  rw [text, empty, List.append_nil] at same
  refine ⟨?_, later, (Sink.emptied_flush _ _).trans emptied_release⟩
  simp only [Output.flush, text]
  rw [kept, empty, List.append_nil]
  exact same

/-- A reader is given just what was written, once the output is let go. -/
theorem input_close (ready : output.sink.Ready work) (named : output.sink.Named) :
    (output.close work).1.input (output.close work).2 = .ok ⟨output.text work, none⟩ := by
  obtain ⟨same, still⟩ := text_release ready
  have empty : (output.release work).1.pending.content = [] := rfl
  rw [text, empty, List.append_nil] at same
  rw [← same]
  apply Sink.input_close still
  rwa [← Sink.named_emptied, emptied_release, Sink.named_emptied]

/-- A file is being extended, and comes to hold this content. -/
structure Fills (output : Output) (work : Workspace) (path : String) (content : Bytes) : Prop where
  target : output.sink.path? = some path
  ready : output.sink.Ready work
  text_eq : output.text work = content

variable {path : String} {content : Bytes}

theorem Fills.pushAll (fills : output.Fills work path content) (pieces : List Bytes) :
    (output.pushAll pieces work).1.Fills (output.pushAll pieces work).2 path
      (content ++ pieces.flatten) := by
  obtain ⟨same, still, sink⟩ := text_pushAll fills.ready pieces
  refine ⟨?_, still, by rw [same, fills.text_eq]⟩
  rw [← Sink.path?_emptied, sink, Sink.path?_emptied, fills.target]

/-- Letting go of an output leaves its content in the file. -/
theorem Fills.close (fills : output.Fills work path content) :
    (output.close work).2.Holds path content := by
  obtain ⟨same, still⟩ := text_release fills.ready
  have empty : (output.release work).1.pending.content = [] := rfl
  rw [text, empty, List.append_nil, fills.text_eq] at same
  rw [← same]
  exact Sink.holds_close still (path?_release.trans fills.target)

end Output

namespace Writer

/-- A writer of rows of one length, which it keeps as they are and puts behind what a file comes to
hold already. -/
structure Fills (writer : Writer) (work : Workspace) (path : String) (length : Nat)
    (content : Bytes) : Prop where
  length_eq : writer.rowLength = some length
  kept : writer.nuls = .keep
  filled : writer.output.Fills work path content

variable {writer : Writer} {work : Workspace} {path : String} {length : Nat} {content : Bytes}

theorem Fills.emit (fills : writer.Fills work path length content) {cells : Row}
    (fits : cells.length = length) :
    ∃ next rest, writer.emit cells work = (.ok (), next, rest) ∧ next.dialect = writer.dialect ∧
      next.Fills rest path length
        (content ++ Record.encode writer.dialect (cells.map Text.bytes)) := by
  have written := fills.filled.pushAll (Record.pieces writer.dialect (cells.map Text.bytes))
  refine ⟨{ writer with
      rowLength := some length
      output := (writer.output.pushAll
        (Record.pieces writer.dialect (cells.map Text.bytes)) work).1 }, _, ?_, rfl, rfl,
    fills.kept, written⟩
  simp [Writer.emit, fills.length_eq, fits, fills.kept, NulPolicy.apply]

/-- A row of the right length comes to stand at the end of the file. -/
theorem Fills.writeRow (fills : writer.Fills work path length content) {cells : Row}
    (fits : cells.length = length) :
    ∃ next rest, writer.writeRow cells work = (.ok (), next, rest) ∧
      next.dialect = writer.dialect ∧
      next.Fills rest path length
        (content ++ Record.encode writer.dialect (cells.map Text.bytes)) := by
  obtain ⟨next, rest, written, dialect, filled⟩ := fills.emit fits
  refine ⟨{ next with rowsWritten := next.rowsWritten + 1 }, rest, ?_, dialect,
    filled.length_eq, filled.kept, filled.filled⟩
  simp [Writer.writeRow, written]

end Writer

namespace WriterOptions

/-- A writer before it has written anything. -/
def start (options : WriterOptions) (sink : Sink) (fieldnames : Option (List String))
    (rowLength : Option Nat) : Writer :=
  { dialect := ⟨options.delimiter, options.quote⟩
    fieldnames := fieldnames
    rowLength := rowLength
    nuls := options.nuls
    output := ⟨sink, .empty⟩ }

variable {options : WriterOptions} {fieldnames : Option (List String)} {rowLength : Option Nat}
  (shape : options.shape = .ok (fieldnames, rowLength)) {sink : Sink} {work : Workspace}

include shape

theorem build_of_unheaded {withHeader : Bool}
    (unheaded : (withHeader && fieldnames.isSome) = false) :
    options.build sink withHeader work = .ok (options.start sink fieldnames rowLength, work) := by
  rw [build, shape, Outcome.ok_bind]
  simp only [unheaded, Bool.false_eq_true, if_false]
  rfl

theorem build_of_headed (headed : fieldnames.isSome = true) :
    options.build sink true work =
      match (options.start sink fieldnames rowLength).writeHeader work with
      | (.ok (), writer, later) => .ok (writer, later)
      | (.error error, _, _) => .error error := by
  rw [build, shape, Outcome.ok_bind, start]
  simp only [headed, Bool.and_true, if_true]
  rfl

end WriterOptions

end ResumableCsv
