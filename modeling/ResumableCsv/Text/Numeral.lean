import ResumableCsv.Text.Basic

/-!
Decimal numerals of 64-bit counters. A numeral is read in full or not at all, and a value that does
not fit 64 bits is refused.
-/

namespace ResumableCsv.Text

def digitValue (c : Char) : Nat := c.toNat - 0x30

def digitsValue (digits : List Char) : Nat :=
  digits.foldl (fun value c => 10 * value + digitValue c) 0

/-- The largest value of a 64-bit counter. -/
def maxCounter : Nat := UInt64.size - 1

/-- Reads one or more decimal digits, leading zeros allowed. -/
def readDigits? (digits : List Char) : Option Nat :=
  if digits ≠ [] ∧ digits.all isAsciiDigit = true ∧ digitsValue digits ≤ maxCounter then
    some (digitsValue digits)
  else none

/-- Reads a counter, which may carry a plus sign. -/
def readCounter? : List Char → Option Nat
  | '+' :: digits => readDigits? digits
  | digits => readDigits? digits

/-- The decimal digits of a number, most significant first. -/
def decimal (n : Nat) : List Char := Nat.toDigits 10 n

end ResumableCsv.Text
