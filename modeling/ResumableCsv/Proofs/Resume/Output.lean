import ResumableCsv.Proofs.Writer.Content
import ResumableCsv.Resume.Resumer

/-!
Opening an output that may be there already: it is made anew when it holds nothing, and otherwise it
is continued behind its last line, once the resumer has nothing against it.
-/

namespace ResumableCsv

open Record

/-- A text with its last line ended. -/
def Record.ended (text : Bytes) : Bytes :=
  if text.getLast? = some lineFeed then text else text ++ [lineFeed]

/-- Files of which one, with this content, gets its last line ended. -/
def Workspace.endLine (work : Workspace) (path : String) (content : Bytes) : Workspace :=
  if content.getLast? = some lineFeed then work else work.append path [lineFeed]

theorem Workspace.endLine_of_ended {content : Bytes} (ends : content.getLast? = some lineFeed)
    (work : Workspace) (path : String) : work.endLine path content = work :=
  if_pos ends

theorem Workspace.Holds.endLine {work : Workspace} {path : String} {content : Bytes}
    (holds : work.Holds path content) :
    (work.endLine path content).Holds path (ended content) := by
  unfold Workspace.endLine ended
  split
  · exact holds
  · exact holds.append [lineFeed]

theorem Workspace.file?_endLine {work : Workspace} {path : String} {content : Bytes}
    (held : work.file? path = some content) :
    (work.endLine path content).file? path = some (ended content) := by
  unfold endLine ended
  split
  · exact held
  · exact Workspace.file?_append held _

/-- Behind what a file holds, nothing has been written yet. -/
theorem Output.fills_of_holds {work : Workspace} {path : String} {content : Bytes}
    (holds : work.Holds path content) :
    Output.Fills ⟨.file path, .empty⟩ work path content :=
  ⟨rfl, Sink.ready_of_holds rfl holds, by simp [Output.text, Sink.text, holds.held]⟩

namespace ResumableOutput

variable {output : ResumableOutput} {work : Workspace}

theorem canResume_of_vacant (vacant : work.size output.path = 0) :
    output.canResume work = false := by
  simp [canResume, vacant]

theorem canResume_of_filled {content : Bytes} (held : work.file? output.path = some content)
    (filled : content ≠ []) : output.canResume work = true := by
  have size : 0 < work.size output.path := by
    rw [Workspace.size, held]
    exact List.length_pos_iff.mpr filled
  simp [canResume, size]

theorem exists_content_of_canResume (resuming : output.canResume work = true) :
    ∃ content, work.file? output.path = some content ∧ content ≠ [] := by
  have size : 0 < work.size output.path := of_decide_eq_true resuming
  cases held : work.file? output.path with
  | none => simp [Workspace.size, held] at size
  | some content =>
    rw [Workspace.size, held] at size
    exact ⟨content, rfl, List.length_pos_iff.mp size⟩

theorem openSink_anew (home : work.Home output.path) (vacant : work.size output.path = 0) :
    output.openSink work = .ok (.file output.path, work.put output.path []) := by
  simp [openSink, canResume_of_vacant vacant, home.create, Outcome.mapError_ok, Except.map]

theorem openSink_behind {content : Bytes} (held : work.file? output.path = some content)
    (filled : content ≠ []) :
    output.openSink work = .ok (.file output.path, work.endLine output.path content) := by
  simp only [openSink, canResume_of_filled held filled, if_true, Workspace.read, held,
    Outcome.mapError_ok, Workspace.endLine]
  split <;> rfl

theorem sample_steps : Path.steps "out.csv" = ["out.csv".toList] := by
  rw [Path.steps, Text.splitOn_of_not_mem (by decide)]
  decide

theorem sample_loose : Path.isGzip "out.csv" = false := by
  have name : Path.fileName? "out.csv" = some "out.csv".toList := by
    rw [Path.fileName?, sample_steps]
    decide
  have pieces : Text.splitOn ['.'] "out.csv".toList = ["out".toList, "csv".toList] := by
    have cut := Text.splitOn_append (show '.' ∉ "out".toList by decide) "csv".toList
    rwa [Text.splitOn_of_not_mem (show '.' ∉ "csv".toList by decide)] at cut
  have extension : Path.extension? "out.csv" = some "csv".toList := by
    rw [Path.extension?, name, Option.bind_some, Path.nameExtension?, if_neg (by decide), pieces]
    rfl
  rw [Path.isGzip, extension]
  decide

/-- An output in the folder of the program. -/
def sample : ResumableOutput := { path := "out.csv", plain := sample_loose }

theorem sample_named : Path.isConsole "out.csv" = false := by
  rw [Path.isConsole, sample_steps]
  decide

/-- The sample can be made where there are no files at all. -/
theorem sample_home : Workspace.Home {} "out.csv" := by
  have normal : Path.normal "out.csv" = "out.csv" := by
    rw [Path.normal, sample_steps]
    decide
  have parent : Path.parent "out.csv" = "" := by
    rw [Path.parent, sample_steps]
    decide
  exact ⟨by decide, by simp [Workspace.isFolder, normal], by rw [parent]; rfl⟩

end ResumableOutput

namespace WriterOptions

variable {options : WriterOptions} {context : OutputContext} {resumer looked : Resumer}
  {defaults : Defaults} {work opened : Workspace} {path : String} {writer : Writer}
  (same : resumer.output.path = path)

include same

theorem resumeWith_anew (home : work.Home path) (vacant : work.size path = 0)
    (built : options.build (.file path) options.writesHeader (work.put path []) =
      .ok (writer, opened)) :
    options.resumeWith context resumer defaults work = (.ok writer, resumer, opened) := by
  subst same
  simp only [resumeWith, ResumableOutput.canResume_of_vacant vacant, Bool.false_eq_true, if_false,
    ResumableOutput.openSink_anew home vacant, Bool.not_false, Bool.and_true, built]

/-- A writer on a new output was built there. -/
theorem build_of_resumeWith_anew (home : work.Home path) (vacant : work.size path = 0)
    (resumed : (options.resumeWith context resumer defaults work).1 = .ok writer) :
    ∃ opened, options.build (.file path) options.writesHeader (work.put path []) =
      .ok (writer, opened) := by
  cases built : options.build (.file path) options.writesHeader (work.put path []) with
  | ok made =>
    obtain ⟨made, opened⟩ := made
    rw [resumeWith_anew same home vacant built] at resumed
    cases resumed
    exact ⟨opened, rfl⟩
  | error error =>
    subst same
    simp only [resumeWith, ResumableOutput.canResume_of_vacant vacant, Bool.false_eq_true,
      if_false, ResumableOutput.openSink_anew home vacant, Bool.not_false, Bool.and_true,
      built] at resumed
    cases resumed

section

variable {content : Bytes} (held : work.file? path = some content) (filled : content ≠ [])

include held filled

theorem resumeWith_behind (still : looked.output.path = path)
    (inspected : resumer.inspect context defaults work = (.ok (), looked))
    (built : options.build (.file path) false (work.endLine path content) = .ok (writer, opened)) :
    options.resumeWith context resumer defaults work = (.ok writer, looked, opened) := by
  subst still
  rw [← same] at held
  have resuming := ResumableOutput.canResume_of_filled held filled
  rw [same] at held
  simp only [resumeWith, resuming, if_true, inspected,
    ResumableOutput.openSink_behind held filled, Bool.not_true, Bool.and_false, built]

/-- What a resumer objects to is reported, and the output is left alone. -/
theorem resumeWith_refused {error : Error}
    (inspected : resumer.inspect context defaults work = (.error error, looked)) :
    options.resumeWith context resumer defaults work = (.error error, looked, work) := by
  rw [← same] at held
  simp only [resumeWith, ResumableOutput.canResume_of_filled held filled, if_true, inspected]

end

end WriterOptions

end ResumableCsv
