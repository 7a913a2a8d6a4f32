import ResumableCsv.Path

/-!
Delimiters as they are given on a command line: by name, or as the one ASCII character they are.
-/

namespace ResumableCsv.CommandLine

inductive DelimiterFault
  | empty
  | severalCharacters
  | notAscii
deriving DecidableEq, Repr

def DelimiterFault.message : DelimiterFault → String
  | .empty => "Delimiter cannot be empty"
  | .severalCharacters => "Delimiter must be a single character"
  | .notAscii => "Delimiter must be ASCII"

def namedDelimiters : List (String × UInt8) :=
  [("tab", Path.tab), ("comma", Path.comma), ("pipe", 0x7C), ("semicolon", 0x3B)]

def parseDelimiter (text : String) : Except DelimiterFault UInt8 :=
  match namedDelimiters.lookup text with
  | some delimiter => .ok delimiter
  | none =>
    match text.toList with
    | [] => .error .empty
    | [c] => if c.toNat < 0x80 then .ok c.toNat.toUInt8 else .error .notAscii
    | _ => .error .severalCharacters

end ResumableCsv.CommandLine
