import ResumableCsv.Path
import ResumableCsv.Record.Scan

/-!
Guessing a delimiter from a sample: the candidate seen most often outside double quotes on the first
line, the earlier candidate when two are seen equally often.
-/

namespace ResumableCsv.Sniff

def candidates : List UInt8 := [Path.comma, Path.tab, 0x3B, 0x7C]

def doubleQuote : UInt8 := 0x22

/-- The bytes outside quotes up to the first line feed that is outside quotes. -/
def openLine : Bool → Bytes → Bytes
  | _, [] => []
  | inQuotes, byte :: rest =>
    if byte = doubleQuote then openLine (!inQuotes) rest
    else if inQuotes then openLine inQuotes rest
    else if byte = Record.lineFeed then []
    else byte :: openLine inQuotes rest

def better (line : Bytes) (best : Option UInt8) (candidate : UInt8) : Option UInt8 :=
  let count := line.count candidate
  match best with
  | none => if 0 < count then some candidate else none
  | some held => if line.count held < count then some candidate else some held

def delimiter? (sample : Bytes) : Option UInt8 :=
  candidates.foldl (better (openLine false sample)) none

end ResumableCsv.Sniff
