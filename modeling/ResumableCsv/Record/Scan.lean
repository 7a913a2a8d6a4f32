import ResumableCsv.Text.Utf8

/-!
Reading delimited records. A record ends at a line feed or a carriage return outside quotes, and
empty lines between records are skipped. A quote opens a quoted field only as its first byte;
inside, two quotes stand for one, and whatever follows the closing quote still belongs to the field.
The end of the input closes whatever is open.
-/

namespace ResumableCsv

structure Dialect where
  delimiter : UInt8
  quote : UInt8
deriving DecidableEq, Repr

abbrev Record := List Bytes

namespace Record

def lineFeed : UInt8 := 0x0A

def carriageReturn : UInt8 := 0x0D

def isTerminator (byte : UInt8) : Bool := byte == lineFeed || byte == carriageReturn

/-- What a field or a record ended at. -/
inductive Ending
  | delimiter
  | terminator
  | inputEnd
deriving DecidableEq, Repr

/-- Something read, what it ended at, and the input that is left. -/
structure Scanned (α : Type) where
  value : α
  ending : Ending
  rest : Bytes
deriving Repr

/-- Where the reader stands in a field; `closing` is behind a quote inside a quoted field. -/
inductive Place
  | fieldStart
  | bare
  | quoted
  | closing
deriving DecidableEq, Repr

def Scanned.push (byte : UInt8) (scanned : Scanned Bytes) : Scanned Bytes :=
  { scanned with value := byte :: scanned.value }

/-- Reads the rest of one field. -/
def scanField (dialect : Dialect) : Place → Bytes → Scanned Bytes
  | _, [] => ⟨[], .inputEnd, []⟩
  | .quoted, byte :: rest =>
    if byte = dialect.quote then scanField dialect .closing rest
    else (scanField dialect .quoted rest).push byte
  | .fieldStart, byte :: rest =>
    if byte = dialect.quote then scanField dialect .quoted rest
    else if byte = dialect.delimiter then ⟨[], .delimiter, rest⟩
    else if isTerminator byte then ⟨[], .terminator, rest⟩
    else (scanField dialect .bare rest).push byte
  | .bare, byte :: rest =>
    if byte = dialect.delimiter then ⟨[], .delimiter, rest⟩
    else if isTerminator byte then ⟨[], .terminator, rest⟩
    else (scanField dialect .bare rest).push byte
  | .closing, byte :: rest =>
    if byte = dialect.quote then (scanField dialect .quoted rest).push byte
    else if byte = dialect.delimiter then ⟨[], .delimiter, rest⟩
    else if isTerminator byte then ⟨[], .terminator, rest⟩
    else (scanField dialect .bare rest).push byte

theorem scanField_rest (dialect : Dialect) (place : Place) (input : Bytes) :
    (scanField dialect place input).rest.length ≤ input.length - 1 := by
  fun_induction scanField dialect place input <;>
    simp_all only [Scanned.push, List.length_nil, List.length_cons] <;> omega

theorem scanField_ending (dialect : Dialect) (place : Place) {input : Bytes}
    (stopped : (scanField dialect place input).ending ≠ .inputEnd) : 0 < input.length := by
  rcases input with _ | ⟨byte, rest⟩
  · exact absurd (by simp [scanField]) stopped
  · simp

/-- Reads fields up to the end of their record. -/
def scanFields (dialect : Dialect) (input : Bytes) : Scanned Record :=
  let field := scanField dialect .fieldStart input
  if _more : field.ending = .delimiter then
    let others := scanFields dialect field.rest
    { others with value := field.value :: others.value }
  else ⟨[field.value], field.ending, field.rest⟩
termination_by input.length
decreasing_by
  have bound := scanField_rest dialect .fieldStart input
  have nonempty := scanField_ending dialect .fieldStart (by rw [_more]; decide)
  omega

theorem scanFields_rest (dialect : Dialect) (input : Bytes) :
    (scanFields dialect input).rest.length ≤ input.length - 1 := by
  fun_induction scanFields dialect input with
  | case1 input field more others ih =>
    have bound := scanField_rest dialect .fieldStart input
    exact Nat.le_trans ih (Nat.le_trans (Nat.sub_le _ _) bound)
  | case2 input field more => exact scanField_rest dialect .fieldStart input

/-- Reads the next record, if there is one. -/
def scanRecord (dialect : Dialect) (input : Bytes) : Option (Scanned Record) :=
  match input.dropWhile isTerminator with
  | [] => none
  | byte :: rest => some (scanFields dialect (byte :: rest))

theorem scanRecord_rest {dialect : Dialect} {input : Bytes} {scanned : Scanned Record}
    (found : scanRecord dialect input = some scanned) : scanned.rest.length < input.length := by
  have skipped := (List.dropWhile_sublist (l := input) isTerminator).length_le
  unfold scanRecord at found
  split at found
  next => cases found
  next byte rest same =>
    have bound := scanFields_rest dialect (byte :: rest)
    cases found
    simp only [same, List.length_cons] at skipped bound
    omega

end Record

end ResumableCsv
