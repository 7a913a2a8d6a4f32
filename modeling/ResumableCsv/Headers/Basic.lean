import ResumableCsv.Error

/-!
Header rows: the column names in order, beside a table from each distinct name to the positions it
stands at. Columns are looked up by name, by name and occurrence, or by position.
-/

namespace ResumableCsv

/-- Distinct names in order of first appearance, each with its positions in ascending order. -/
abbrev NameTable := List (String × List Nat)

def NameTable.add (name : String) (position : Nat) : NameTable → NameTable
  | [] => [(name, [position])]
  | (known, positions) :: rest =>
    if known = name then (known, positions ++ [position]) :: rest
    else (known, positions) :: NameTable.add name position rest

def NameTable.ofNames (names : List String) : NameTable :=
  names.zipIdx.foldl (fun table (name, position) => table.add name position) []

structure Headers where
  fieldnames : List String
  table : NameTable
deriving DecidableEq, Repr

namespace Headers

def ofNames (names : List String) : Headers := ⟨names, .ofNames names⟩

def length (headers : Headers) : Nat := headers.fieldnames.length

def positions (headers : Headers) (name : String) : List Nat :=
  (headers.table.lookup name).getD []

/-- Each distinct name with the first position it stands at. -/
def firstPositions (headers : Headers) : List (String × Nat) :=
  headers.table.map fun (name, positions) => (name, positions.headD 0)

def nthOccurrence (headers : Headers) (name : String) (occurrence : Nat) : Except Error Nat :=
  match headers.table.lookup name with
  | none => .error (.unknownColumn name)
  | some positions =>
    match positions[occurrence]? with
    | some position => .ok position
    | none => .error (.occurrenceOutOfRange name occurrence positions.length)

def resolve (headers : Headers) : ColumnKey → Except Error Nat
  | .named name => headers.nthOccurrence name 0
  | .nth name occurrence => headers.nthOccurrence name occurrence
  | .position index =>
    if index < headers.length then .ok index
    else .error (.columnOutOfRange index headers.length)

def get? (headers : Headers) (key : ColumnKey) : Option Nat := (headers.resolve key).toOption

def contains (headers : Headers) (key : ColumnKey) : Bool := (headers.get? key).isSome

def nameAt (headers : Headers) (index : Nat) : Except Error String :=
  match headers.fieldnames[index]? with
  | some name => .ok name
  | none => .error (.columnOutOfRange index headers.length)

/-- Every column called `old` is called `new`. -/
def rename (headers : Headers) (old new : String) : Headers :=
  ofNames (headers.fieldnames.map fun name => if name = old then new else name)

/-- The names separated by commas. -/
def display (headers : Headers) : String := ",".intercalate headers.fieldnames

end Headers

end ResumableCsv
