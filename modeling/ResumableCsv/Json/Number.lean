import ResumableCsv.Decimal.Read
import ResumableCsv.Json.Basic

/-!
Numbers of a document. A number without point and exponent that fits 64 bits is an integer. Any
other is real: its digits, as far as they fit 64 bits, are rounded, then multiplied or divided by a
power of ten and rounded again, and a result out of range is refused.
-/

namespace ResumableCsv.Json

open Decimal

/-- The largest power of ten that has a double close to it. -/
def largestPower : Nat := 308

def ofNat (n : Nat) : Binary := double.round false n 1

def powerOfTen (n : Nat) : Binary := ofNat (Nat.pow 10 n)

/-- Divides by a power of ten, in steps of the largest one. -/
def scaleDown (value : Binary) (power : Nat) : Binary :=
  if power ≤ largestPower then value.divide double (powerOfTen power)
  else if value.isZero then value
  else scaleDown (value.divide double (powerOfTen largestPower)) (power - largestPower)
termination_by power
decreasing_by
  simp only [largestPower] at *
  omega

def scale? (significand : Nat) (exponent : Int) : Option Binary :=
  let value := ofNat significand
  let scaled :=
    if exponent < 0 then scaleDown value exponent.natAbs
    else if value.isZero then value
    else if largestPower < exponent.natAbs then .infinite false
    else value.multiply double (powerOfTen exponent.natAbs)
  if scaled.isFinite then some scaled else none

/-- Takes digits into a significand while it fits 64 bits, and tells how many it took. -/
def absorb (significand taken : Nat) : List Char → Nat × Nat × List Char
  | [] => (significand, taken, [])
  | c :: rest =>
    let longer := 10 * significand + Text.digitValue c
    if Text.isAsciiDigit c ∧ longer ≤ Text.maxCounter then absorb longer (taken + 1) rest
    else (significand, taken, c :: rest)

def signed (negative : Bool) (value : Binary) : Json :=
  .real (if negative then value.negate else value)

/-- The whole number of a significand. A negative zero, or what a signed word of 64 bits does not
hold, is real. -/
def whole (negative : Bool) (significand : Nat) : Json :=
  if !negative then .integer significand
  else if significand = 0 ∨ UInt64.size / 2 < significand then signed true (ofNat significand)
  else .integer (-significand)

/-- Reads an exponent, if there is one, and makes the number. -/
def withExponent (negative : Bool) (significand : Nat) (exponent : Int) (text : List Char) :
    Option (Json × List Char) :=
  let (more, rest) :=
    match text with
    | 'e' :: body | 'E' :: body =>
      let (down, digits) := readSign body
      let (digits, rest) := splitDigits digits
      let size : Int := Text.digitsValue digits
      (if digits = [] then none else some (if down then -size else size), rest)
    | rest => (some 0, rest)
  more.bind fun more =>
    (scale? significand (exponent + more)).map fun value => (signed negative value, rest)

/-- Reads the digits behind the point; those that no longer fit are passed over. -/
def withFraction (negative : Bool) (significand : Nat) (exponent : Int) (text : List Char) :
    Option (Json × List Char) :=
  let (significand, taken, rest) := absorb significand 0 text
  let (dropped, rest) := splitDigits rest
  if taken = 0 ∧ dropped = [] then none
  else withExponent negative significand (exponent - taken) rest

def unsigned (negative : Bool) (text : List Char) : Option (Json × List Char) :=
  let (significand, taken, rest) := absorb 0 0 text
  let (dropped, rest) := splitDigits rest
  if taken = 0 ∨ (text.head? = some '0' ∧ taken ≠ 1) then none
  else
    match rest with
    | '.' :: fraction => withFraction negative significand dropped.length fraction
    | 'e' :: _ | 'E' :: _ => withExponent negative significand dropped.length rest
    | _ =>
      if dropped = [] then some (whole negative significand, rest)
      else withExponent negative significand dropped.length rest

/-- Reads a number at the start of a text. -/
def number : List Char → Option (Json × List Char)
  | '-' :: rest => unsigned true rest
  | digits => unsigned false digits

end ResumableCsv.Json
