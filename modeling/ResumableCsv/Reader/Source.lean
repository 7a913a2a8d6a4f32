import ResumableCsv.Error
import ResumableCsv.NulBytes.Policy
import ResumableCsv.NulBytes.Stream
import ResumableCsv.Record.Sniff
import ResumableCsv.Text.Encoding
import ResumableCsv.Workspace

/-!
Where rows come from: encoded text that is parsed record by record, or rows that are split already.
Text arrives in blocks of a fixed size; a byte-order mark is dropped at its very start and once more
in front of what the record parser is given first.
-/

namespace ResumableCsv

def blockSize : Nat := 8192

/-- Blocks of the given size, the last one possibly shorter. -/
def blocksOf (size : Nat) (content : Bytes) : List Bytes :=
  if _more : 0 < size ∧ content ≠ [] then
    content.take size :: blocksOf size (content.drop size)
  else []
termination_by content.length
decreasing_by
  have nonempty := List.length_pos_iff.mpr _more.2
  simp only [List.length_drop]
  omega

theorem flatten_blocksOf {size : Nat} (positive : 0 < size) (content : Bytes) :
    (blocksOf size content).flatten = content := by
  fun_induction blocksOf size content with
  | case1 content more ih => rw [List.flatten_cons, ih, List.take_append_drop]
  | case2 content done =>
    have nothing : content = [] := by
      by_cases nonempty : content = []
      · exact nonempty
      · exact absurd ⟨positive, nonempty⟩ done
    rw [nothing, List.flatten_nil]

def byteOrderMark : Bytes := [0xEF, 0xBB, 0xBF]

def dropMark (content : Bytes) : Bytes :=
  if byteOrderMark.isPrefixOf content then content.drop byteOrderMark.length else content

/-- The blocks of an input behind its byte-order mark. Each is taken to come in full, the last one
excepted, for a packed file once it is unpacked. -/
def Input.blocks (input : Input) : Except Error (List Bytes) :=
  match input.content, input.fault with
  | [], some fault => .error (.io fault)
  | content, _ =>
    .ok (dropMark (content.take blockSize) :: blocksOf blockSize (content.drop blockSize))

/-- What the record parser sees of some blocks. -/
def parsedText (nuls : NulPolicy) (blocks : List Bytes) : Bytes :=
  let arriving := if nuls = .strip then NulBytes.drain blockSize blocks else blocks
  match arriving with
  | [] => []
  | first :: rest => dropMark first ++ rest.flatten

/-- Looks an encoding up by its label, among some character sets or what all of them share. -/
def Encoding.resolve (label : String) (charsets : String → Charset := fun _ => .shared) :
    Except Error Encoding :=
  match Encoding.ofLabel? charsets label with
  | some encoding => .ok encoding
  | none => .error (.invalidConfiguration (.unknownEncoding label))

def decodeRow (encoding : Encoding) : Record → Except Error Row
  | [] => .ok []
  | field :: rest =>
    match encoding.decode? field with
    | none => .error (.decode encoding.name)
    | some cell => (decodeRow encoding rest).map (cell :: ·)

/-- How much of an input is left; a fault still to come counts as one byte. -/
def Input.size (input : Input) : Nat :=
  input.content.length + if input.fault.isSome then 1 else 0

def Input.exhausted : Input := ⟨[], none⟩

/-- Reads one row of text. A fault of the input shows once parsing asks for what it withholds. -/
def Input.nextRow (dialect : Dialect) (encoding : Encoding) (input : Input) :
    Except Error (Option Row) × Input :=
  match Record.scanRecord dialect input.content, input.fault with
  | none, none => (.ok none, .exhausted)
  | none, some fault => (.error (.csv fault), .exhausted)
  | some scanned, none => ((decodeRow encoding scanned.value).map some, ⟨scanned.rest, none⟩)
  | some scanned, some fault =>
    if scanned.ending = .inputEnd then (.error (.csv fault), .exhausted)
    else ((decodeRow encoding scanned.value).map some, ⟨scanned.rest, some fault⟩)

theorem Input.size_nextRow_lt {dialect : Dialect} {encoding : Encoding} {input : Input}
    (found : (input.nextRow dialect encoding).1 ≠ .ok none) :
    (input.nextRow dialect encoding).2.size < input.size := by
  unfold nextRow at found ⊢
  split
  next scan broken => simp [scan, broken] at found
  next fault _ broken => simp [size, exhausted, broken]
  next scanned scan broken => simpa [size, broken] using Record.scanRecord_rest scan
  next scanned fault scan broken =>
    have shorter := Record.scanRecord_rest scan
    split
    · simp [size, exhausted, broken]
    · simpa [size, broken] using shorter

inductive Source
  | text (dialect : Dialect) (encoding : Encoding) (input : Input)
  | listed (rows : List Row)

namespace Source

def size : Source → Nat
  | .text _ _ input => input.size
  | .listed rows => rows.length

/-- The next row, nothing at the end. -/
def next : Source → Except Error (Option Row) × Source
  | .listed [] => (.ok none, .listed [])
  | .listed (row :: rows) => (.ok (some row), .listed rows)
  | .text dialect encoding input =>
    let (outcome, rest) := input.nextRow dialect encoding
    (outcome, .text dialect encoding rest)

theorem size_next_lt {source : Source} (found : source.next.1 ≠ .ok none) :
    source.next.2.size < source.size := by
  match source with
  | .listed [] => exact absurd rfl found
  | .listed (row :: rows) => simp [next, size]
  | .text dialect encoding input => exact Input.size_nextRow_lt found

end Source

end ResumableCsv
