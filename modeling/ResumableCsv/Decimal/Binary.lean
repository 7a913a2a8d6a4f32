/-!
Binary floating-point numbers as exact values: a mantissa times a power of two. A quotient is
rounded once, to the nearest number of the wanted precision and to the even one of two.
-/

namespace ResumableCsv.Decimal

/-- A kind of numbers: the width of a mantissa, and the exponents of the finest and of the coarsest
step between neighbours. -/
structure Precision where
  width : Nat
  finest : Int
  coarsest : Int
deriving DecidableEq, Repr

def single : Precision := ⟨24, -149, 104⟩

def double : Precision := ⟨53, -1074, 971⟩

inductive Binary
  | nan
  | infinite (negative : Bool)
  | finite (negative : Bool) (mantissa : Nat) (exponent : Int)
deriving DecidableEq, Repr

/-- The nearest whole number to a quotient; a half goes to the even neighbour. -/
def roundDiv (numerator denominator : Nat) : Nat :=
  let whole := numerator / denominator
  let twice := 2 * (numerator % denominator)
  if twice < denominator ∨ (twice = denominator ∧ whole % 2 = 0) then whole else whole + 1

/-- The largest power of two that does not exceed a positive quotient. -/
def quotientLog2 (numerator denominator : Nat) : Int :=
  let guess : Int := numerator.log2 - denominator.log2
  if denominator * Nat.pow 2 guess.toNat ≤ numerator * Nat.pow 2 (-guess).toNat then guess
  else guess - 1

namespace Precision

def zero (precision : Precision) (negative : Bool) : Binary := .finite negative 0 precision.finest

/-- The number nearest to a quotient. -/
def round (precision : Precision) (negative : Bool) (numerator denominator : Nat) : Binary :=
  if numerator = 0 then precision.zero negative
  else
    let exponent :=
      max precision.finest (quotientLog2 numerator denominator - (precision.width - 1))
    let mantissa :=
      roundDiv (numerator * Nat.pow 2 (-exponent).toNat) (denominator * Nat.pow 2 exponent.toNat)
    let (mantissa, exponent) :=
      if mantissa = Nat.pow 2 precision.width then (mantissa / 2, exponent + 1)
      else (mantissa, exponent)
    if precision.coarsest < exponent then .infinite negative
    else .finite negative mantissa exponent

def countDigits (n : Nat) : Nat := (Nat.toDigits 10 n).length

/-- The number nearest to `coefficient * 10 ^ exponent`. A value far out of range is settled by its
order of magnitude. -/
def ofDecimal (precision : Precision) (negative : Bool) (coefficient : Nat) (exponent : Int) :
    Binary :=
  let magnitude := countDigits coefficient + exponent
  if coefficient = 0 ∨ 3 * magnitude < precision.finest - 1 then precision.zero negative
  else if precision.coarsest + precision.width < magnitude then .infinite negative
  else precision.round negative (coefficient * Nat.pow 10 exponent.toNat)
    (Nat.pow 10 (-exponent).toNat)

end Precision

namespace Binary

/-- The absolute value of a finite number as a quotient. -/
def quotient (mantissa : Nat) (exponent : Int) : Nat × Nat :=
  (mantissa * Nat.pow 2 exponent.toNat, Nat.pow 2 (-exponent).toNat)

/-- Multiplies two finite positive numbers. -/
def multiply (precision : Precision) : Binary → Binary → Binary
  | .finite _ m e, .finite _ n f =>
    let (num, den) := quotient m e
    let (factor, divisor) := quotient n f
    precision.round false (num * factor) (den * divisor)
  | _, _ => .nan

/-- Divides one finite positive number by another. -/
def divide (precision : Precision) : Binary → Binary → Binary
  | .finite _ m e, .finite _ n f =>
    let (num, den) := quotient m e
    let (factor, divisor) := quotient n f
    precision.round false (num * divisor) (den * factor)
  | _, _ => .nan

def isZero : Binary → Bool
  | .finite _ mantissa _ => mantissa == 0
  | _ => false

def isFinite : Binary → Bool
  | .finite .. => true
  | _ => false

def negate : Binary → Binary
  | .nan => .nan
  | .infinite negative => .infinite !negative
  | .finite negative mantissa exponent => .finite (!negative) mantissa exponent

end Binary

end ResumableCsv.Decimal
