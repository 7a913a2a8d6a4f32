import ResumableCsv.Decimal.Layout
import ResumableCsv.Text.Quoted

/-!
Documents and their compact text. Members keep the order they are listed in; documents that are read
list them in order of their names.
-/

namespace ResumableCsv

inductive Json
  | null
  | boolean (value : Bool)
  | integer (value : Int)
  | real (value : Decimal.Binary)
  | text (content : String)
  | array (items : List Json)
  | object (members : List (String × Json))

namespace Json

/-- Only finite numbers have a document form. -/
def ofBinary (value : Decimal.Binary) : Json :=
  if value.isFinite then .real value else .null

def ofTexts (texts : List String) : Json := .array (texts.map .text)

def ofOption : Option String → Json
  | none => .null
  | some content => .text content

def escapeChar (c : Char) : List Char :=
  match c with
  | '"' => ['\\', '"']
  | '\\' => ['\\', '\\']
  | '\n' => ['\\', 'n']
  | '\r' => ['\\', 'r']
  | '\t' => ['\\', 't']
  | '\x08' => ['\\', 'b']
  | '\x0c' => ['\\', 'f']
  | _ =>
    if c.toNat < 0x20 then
      ['\\', 'u', '0', '0', if c.toNat < 0x10 then '0' else '1'] ++ Text.hexDigits (c.toNat % 16)
    else [c]

def quotedText (content : String) : String :=
  String.ofList ('"' :: content.toList.flatMap escapeChar ++ ['"'])

def opening : String := "\x7b"

def closing : String := "\x7d"

mutual

/-- The text of a document without any blanks. -/
def compact : Json → String
  | .null => "null"
  | .boolean value => if value then "true" else "false"
  | .integer value => toString value
  | .real value => Decimal.Layout.document.render Decimal.double value
  | .text content => quotedText content
  | .array items => "[" ++ ",".intercalate (compactItems items) ++ "]"
  | .object members => opening ++ ",".intercalate (compactMembers members) ++ closing

def compactItems : List Json → List String
  | [] => []
  | item :: rest => item.compact :: compactItems rest

def compactMembers : List (String × Json) → List String
  | [] => []
  | (name, value) :: rest => (quotedText name ++ ":" ++ value.compact) :: compactMembers rest

end

def indent (depth : Nat) : String := String.ofList (List.replicate (2 * depth) ' ')

/-- Puts parts on lines of their own between brackets; nothing between them leaves no line. -/
def block (depth : Nat) (first last : String) (parts : List String) : String :=
  if parts.isEmpty then first ++ last
  else
    let lines := parts.map fun part => indent (depth + 1) ++ part
    first ++ "\n" ++ ",\n".intercalate lines ++ "\n" ++ indent depth ++ last

mutual

/-- The text of a document over several lines, two blanks for each level. -/
def pretty (depth : Nat) : Json → String
  | .array items => block depth "[" "]" (prettyItems (depth + 1) items)
  | .object members => block depth opening closing (prettyMembers (depth + 1) members)
  | other => other.compact

def prettyItems (depth : Nat) : List Json → List String
  | [] => []
  | item :: rest => item.pretty depth :: prettyItems depth rest

def prettyMembers (depth : Nat) : List (String × Json) → List String
  | [] => []
  | (name, value) :: rest =>
    (quotedText name ++ ": " ++ value.pretty depth) :: prettyMembers depth rest

end

end Json

end ResumableCsv
