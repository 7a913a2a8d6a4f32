import ResumableCsv.Json.Number

/-!
Reading documents. Members are kept in order of their names, and of two members of one name the
later one counts.
-/

namespace ResumableCsv.Json

def isBlank (c : Char) : Bool := c = ' ' || c = '\n' || c = '\t' || c = '\r'

def skipBlanks (text : List Char) : List Char := text.dropWhile isBlank

def hexValue? (c : Char) : Option Nat :=
  let n := (Text.asciiLower c).toNat
  if Text.isAsciiDigit c then some (n - 0x30)
  else if 0x61 ≤ n ∧ n ≤ 0x66 then some (n - 0x57)
  else none

def hexFour? (digits : List Char) : Option Nat :=
  if digits.length = 4 then
    (digits.mapM hexValue?).map fun values => values.foldl (fun n value => 16 * n + value) 0
  else none

/-- Reads the code unit of an escape, and the one that must follow it if it is the first of two. -/
def escapedUnit (text : List Char) : Option (Char × List Char) :=
  match hexFour? (text.take 4), text.drop 4 with
  | none, _ => none
  | some unit, rest =>
    if unit < 0xD800 ∨ 0xDFFF < unit then some (Char.ofNat unit, rest)
    else
      match rest with
      | '\\' :: 'u' :: more =>
        match hexFour? (more.take 4) with
        | some low =>
          if unit < 0xDC00 ∧ 0xDC00 ≤ low ∧ low ≤ 0xDFFF then
            some (Char.ofNat (0x10000 + 0x400 * (unit - 0xD800) + (low - 0xDC00)), more.drop 4)
          else none
        | none => none
      | _ => none

def escaped : List Char → Option (Char × List Char)
  | '"' :: rest => some ('"', rest)
  | '\\' :: rest => some ('\\', rest)
  | '/' :: rest => some ('/', rest)
  | 'b' :: rest => some ('\x08', rest)
  | 'f' :: rest => some ('\x0c', rest)
  | 'n' :: rest => some ('\n', rest)
  | 'r' :: rest => some ('\r', rest)
  | 't' :: rest => some ('\t', rest)
  | 'u' :: rest => escapedUnit rest
  | _ => none

/-- Reads a text behind its opening quote, given that at most `fuel` characters are left. -/
def textBody : Nat → List Char → Option (List Char × List Char)
  | 0, _ => none
  | _ + 1, [] => none
  | fuel + 1, c :: rest =>
    if c = '"' then some ([], rest)
    else if c = '\\' then
      (escaped rest).bind fun (c, rest) =>
        (textBody fuel rest).map fun (content, rest) => (c :: content, rest)
    else if c.toNat < 0x20 then none
    else (textBody fuel rest).map fun (content, rest) => (c :: content, rest)

def quotedAt (fuel : Nat) : List Char → Option (String × List Char)
  | '"' :: rest => (textBody fuel rest).map fun (content, rest) => (String.ofList content, rest)
  | _ => none

/-- Puts a member in its place, over an earlier one of its name. -/
def insertMember (name : String) (value : Json) : List (String × Json) → List (String × Json)
  | [] => [(name, value)]
  | (known, held) :: rest =>
    if name < known then (name, value) :: (known, held) :: rest
    else if name = known then (name, value) :: rest
    else (known, held) :: insertMember name value rest

def word (expected : List Char) (value : Json) (text : List Char) : Option (Json × List Char) :=
  if expected.isPrefixOf text then some (value, text.drop expected.length) else none

mutual

/-- Reads a document, given that at most `fuel` characters are left. -/
def document : Nat → List Char → Option (Json × List Char)
  | 0, _ => none
  | fuel + 1, input =>
    match skipBlanks input with
    | 'n' :: rest => word ['u', 'l', 'l'] .null rest
    | 't' :: rest => word ['r', 'u', 'e'] (.boolean true) rest
    | 'f' :: rest => word ['a', 'l', 's', 'e'] (.boolean false) rest
    | '"' :: rest =>
      (textBody (fuel + 1) rest).map fun (content, rest) => (.text (String.ofList content), rest)
    | '[' :: rest =>
      match skipBlanks rest with
      | ']' :: rest => some (.array [], rest)
      | rest => (documents fuel rest).map fun (items, rest) => (.array items, rest)
    | '\x7b' :: rest =>
      match skipBlanks rest with
      | '\x7d' :: rest => some (.object [], rest)
      | rest => (members fuel [] rest).map fun (members, rest) => (.object members, rest)
    | rest => number rest

def documents : Nat → List Char → Option (List Json × List Char)
  | 0, _ => none
  | fuel + 1, input =>
    match document fuel input with
    | none => none
    | some (item, rest) =>
      match skipBlanks rest with
      | ',' :: rest => (documents fuel rest).map fun (items, rest) => (item :: items, rest)
      | ']' :: rest => some ([item], rest)
      | _ => none

def members : Nat → List (String × Json) → List Char → Option (List (String × Json) × List Char)
  | 0, _, _ => none
  | fuel + 1, held, input =>
    match quotedAt (fuel + 1) (skipBlanks input) with
    | none => none
    | some (name, rest) =>
      match skipBlanks rest with
      | ':' :: rest =>
        match document fuel rest with
        | none => none
        | some (value, rest) =>
          match skipBlanks rest with
          | ',' :: rest => members fuel (insertMember name value held) rest
          | '\x7d' :: rest => some (insertMember name value held, rest)
          | _ => none
      | _ => none

end

/-- Reads a text that is one document and nothing else. -/
def parse? (text : String) : Option Json :=
  match document (text.length + 1) text.toList with
  | some (value, rest) => if (skipBlanks rest).isEmpty then some value else none
  | none => none

end ResumableCsv.Json
