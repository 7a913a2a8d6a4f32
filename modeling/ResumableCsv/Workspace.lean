import ResumableCsv.Gzip.Basic
import ResumableCsv.Path

/-!
The files a program works on, as a value, together with its standard streams. Files are looked up
by normal path, and a file can only be made in a folder that is known.
-/

namespace ResumableCsv

structure Workspace where
  files : List (String × Bytes) := []
  folders : List String := []
  stdin : Bytes := []
  stdout : Bytes := []

namespace Workspace

def file? (work : Workspace) (path : String) : Option Bytes :=
  work.files.lookup (Path.normal path)

def put (work : Workspace) (path : String) (content : Bytes) : Workspace :=
  { work with
    files :=
      (Path.normal path, content) :: work.files.filter fun entry => entry.1 ≠ Path.normal path }

def isFolder (work : Workspace) (path : String) : Bool :=
  path ≠ "" && (Path.normal path == "" || work.folders.contains (Path.normal path))

def hasFolder (work : Workspace) (path : String) : Bool :=
  path == "" || path == "/" || work.folders.contains path

theorem file?_put_self (work : Workspace) (path : String) (content : Bytes) :
    (work.put path content).file? path = some content := by
  simp [file?, put]

/-- Reads the bytes of a file as they are stored. -/
def read (work : Workspace) (path : String) : Except IoFault Bytes :=
  match work.file? path with
  | some content => .ok content
  | none => .error (if work.isFolder path then .isDirectory else .notFound)

/-- Opens a path for reading: the console, a compressed file, or a plain one. -/
def openInput (work : Workspace) (path : String) : Except IoFault Input :=
  if Path.isConsole path then .ok ⟨work.stdin, none⟩
  else (work.read path).map fun content =>
    if Path.isGzip path then Gzip.decode content else ⟨content, none⟩

/-- The whole content of a file, unpacked when it is compressed. -/
def readUnpacked (work : Workspace) (path : String) : Except IoFault Bytes := do
  let content ← work.read path
  if Path.isGzip path then
    match Gzip.decode content with
    | ⟨unpacked, none⟩ => pure unpacked
    | ⟨_, some fault⟩ => .error fault
  else pure content

/-- The size of a file, zero when there is none. -/
def size (work : Workspace) (path : String) : Nat := ((work.file? path).getD []).length

/-- Makes an empty file, in place of the one that may be there. -/
def create (work : Workspace) (path : String) : Except IoFault Workspace :=
  if work.isFolder path then .error .isDirectory
  else if path ≠ "" ∧ work.hasFolder (Path.parent path) = true then .ok (work.put path [])
  else .error .notFound

def append (work : Workspace) (path : String) (content : Bytes) : Workspace :=
  match work.file? path with
  | some before => work.put path (before ++ content)
  | none => work

/-- Cuts a file to a size, or pads it with zero bytes up to it. -/
def resize (work : Workspace) (path : String) (size : Nat) : Except IoFault Workspace :=
  (work.read path).map fun content =>
    work.put path (content.take size ++ List.replicate (size - content.length) 0)

def print (work : Workspace) (content : Bytes) : Workspace :=
  { work with stdout := work.stdout ++ content }

end Workspace

end ResumableCsv
