import ResumableCsv.Text.Unprintable

/-!
Texts shown between double quotes, so that blank and invisible characters can be told apart in a
message, and lists and optional values of such texts.
-/

namespace ResumableCsv.Text

def hexDigits (n : Nat) : List Char := Nat.toDigits 16 n

def showChar (c : Char) : List Char :=
  match c with
  | '\x00' => ['\\', '0']
  | '\t' => ['\\', 't']
  | '\n' => ['\\', 'n']
  | '\r' => ['\\', 'r']
  | '"' => ['\\', '"']
  | '\\' => ['\\', '\\']
  | _ =>
    if c.toNat < 0x20 || (0x7E < c.toNat && Unprintable.contains c.toNat) then
      ['\\', 'u', '\x7b'] ++ hexDigits c.toNat ++ ['\x7d']
    else [c]

def quoted (text : String) : String :=
  String.ofList ('"' :: text.toList.flatMap showChar ++ ['"'])

def showPathChar (c : Char) : List Char := if c = '\'' then ['\\', c] else showChar c

/-- The name of a file, in which a single quote is escaped as well. -/
def quotedPath (path : String) : String :=
  String.ofList ('"' :: path.toList.flatMap showPathChar ++ ['"'])

def quotedList (texts : List String) : String :=
  "[" ++ ", ".intercalate (texts.map quoted) ++ "]"

def quotedOption : Option String → String
  | none => "None"
  | some text => "Some(" ++ quoted text ++ ")"

end ResumableCsv.Text
