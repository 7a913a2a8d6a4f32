import ResumableCsv.Error
import ResumableCsv.Workspace

/-!
Where written bytes go, and the bytes held back on the way. A buffer hands on what it holds when the
next piece no longer fits, so a file lags behind what was written until it is flushed or closed.
-/

namespace ResumableCsv

/-- Bytes held back, last byte first, and their number. -/
structure Buffer where
  size : Nat := 0
  reversed : Bytes := []
  size_eq : size = reversed.length := by rfl
deriving DecidableEq, Repr

namespace Buffer

def empty : Buffer := {}

def capacity : Nat := 8192

def content (buffer : Buffer) : Bytes := buffer.reversed.reverse

def fits (buffer : Buffer) (piece : Bytes) : Bool := buffer.size + piece.length ≤ capacity

def push (piece : Bytes) (buffer : Buffer) : Buffer :=
  ⟨buffer.size + piece.length, piece.reverse ++ buffer.reversed, by
    simp [buffer.size_eq, Nat.add_comm]⟩

theorem content_push (piece : Bytes) (buffer : Buffer) :
    (buffer.push piece).content = buffer.content ++ piece := by
  simp [push, content]

end Buffer

/-- The end of the line for written bytes. -/
inductive Sink
  | memory (content : Bytes)
  | console
  | file (path : String)
  | buffered (path : String) (held : Buffer)
  | packed (path : String) (content : Bytes)

namespace Sink

/-- Makes the file at a path anew; a dash is the console, and a compressed file is packed when it
is closed. -/
def create (path : String) (work : Workspace) : Except Error (Sink × Workspace) :=
  if Path.isConsole path then .ok (.console, work)
  else
    ((work.create path).mapError .io).map fun work =>
      (if Path.isGzip path then .packed path [] else .buffered path .empty, work)

/-- Hands bytes over. A chunk as large as a buffer is never held back. -/
def write (content : Bytes) (sink : Sink) (work : Workspace) : Sink × Workspace :=
  match sink with
  | .memory before => (.memory (before ++ content), work)
  | .console => (.console, work.print content)
  | .file path => (.file path, work.append path content)
  | .packed path before => (.packed path (before ++ content), work)
  | .buffered path held =>
    let (held, work) :=
      if held.fits content then (held, work) else (.empty, work.append path held.content)
    if Buffer.capacity ≤ content.length then (.buffered path held, work.append path content)
    else (.buffered path (held.push content), work)

def flush (sink : Sink) (work : Workspace) : Sink × Workspace :=
  match sink with
  | .buffered path held => (.buffered path .empty, work.append path held.content)
  | other => (other, work)

def close (sink : Sink) (work : Workspace) : Sink × Workspace :=
  match sink with
  | .packed path content => (.file path, work.append path (Gzip.encode content))
  | other => other.flush work

/-- What a sink in memory received. -/
def collected? : Sink → Option Bytes
  | .memory content => some content
  | _ => none

end Sink

/-- A sink and the bytes on their way to it. -/
structure Output where
  sink : Sink
  pending : Buffer := .empty

namespace Output

def release (output : Output) (work : Workspace) : Output × Workspace :=
  let (sink, work) := output.sink.write output.pending.content work
  (⟨sink, .empty⟩, work)

/-- Writes one piece, which stays together. -/
def push (output : Output) (work : Workspace) (piece : Bytes) : Output × Workspace :=
  let (output, work) := if output.pending.fits piece then (output, work) else output.release work
  ({ output with pending := output.pending.push piece }, work)

def pushAll (pieces : List Bytes) (output : Output) (work : Workspace) : Output × Workspace :=
  pieces.foldl (fun (output, work) piece => output.push work piece) (output, work)

def flush (output : Output) (work : Workspace) : Output × Workspace :=
  let (output, work) := output.release work
  let (sink, work) := output.sink.flush work
  (⟨sink, output.pending⟩, work)

/-- Hands everything on and lets the sink go. -/
def close (output : Output) (work : Workspace) : Sink × Workspace :=
  let (output, work) := output.release work
  output.sink.close work

end Output

end ResumableCsv
