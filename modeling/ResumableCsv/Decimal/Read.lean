import ResumableCsv.Decimal.Binary
import ResumableCsv.Text.Numeral

/-!
Reading binary numbers from decimal text: digits with an optional point and exponent, or a word for
infinity or for what is no number. The value is rounded once.
-/

namespace ResumableCsv.Decimal

/-- The digits at the start of a text, and what follows them. -/
def splitDigits (text : List Char) : List Char × List Char := text.span Text.isAsciiDigit

def readSign : List Char → Bool × List Char
  | '-' :: rest => (true, rest)
  | '+' :: rest => (false, rest)
  | rest => (false, rest)

/-- An exponent in full, or none. -/
def readExponent? : List Char → Option Int
  | [] => some 0
  | mark :: rest =>
    let (negative, digits) := readSign rest
    if (mark = 'e' ∨ mark = 'E') ∧ digits ≠ [] ∧ digits.all Text.isAsciiDigit = true then
      some (if negative then -(Text.digitsValue digits : Int) else Text.digitsValue digits)
    else none

def readUnsigned? (precision : Precision) (negative : Bool) (text : List Char) : Option Binary :=
  let (whole, rest) := splitDigits text
  let (fraction, rest) :=
    match rest with
    | '.' :: rest => splitDigits rest
    | rest => ([], rest)
  if whole = [] ∧ fraction = [] then none
  else
    (readExponent? rest).map fun exponent =>
      precision.ofDecimal negative (Text.digitsValue (whole ++ fraction))
        (exponent - fraction.length)

def Precision.read? (precision : Precision) (text : List Char) : Option Binary :=
  let (negative, body) := readSign text
  let word := body.map Text.asciiLower
  if word = "inf".toList ∨ word = "infinity".toList then some (.infinite negative)
  else if word = "nan".toList then some .nan
  else readUnsigned? precision negative body

end ResumableCsv.Decimal
