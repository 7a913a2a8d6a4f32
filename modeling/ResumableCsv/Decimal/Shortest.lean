import ResumableCsv.Decimal.Binary

/-!
The fewest decimal digits that read back as a given binary number. The values that round to it form
an interval; on ever finer decimal grids the two neighbours of the number are tried, and the first
grid with a neighbour in the interval wins, the nearer of two neighbours first.
-/

namespace ResumableCsv.Decimal

/-- The values that round to a number, over one denominator. -/
structure Interval where
  low : Nat
  value : Nat
  high : Nat
  denominator : Nat
  closed : Bool
deriving Repr

/-- A number's lower neighbour is only half as far away where the steps change their size. -/
def Precision.interval (precision : Precision) (mantissa : Nat) (exponent : Int) : Interval :=
  let below :=
    if mantissa = Nat.pow 2 (precision.width - 1) ∧ precision.finest < exponent then 1 else 2
  let scale := Nat.pow 2 (exponent - 2).toNat
  { low := (4 * mantissa - below) * scale
    value := 4 * mantissa * scale
    high := (4 * mantissa + 2) * scale
    denominator := Nat.pow 2 (2 - exponent).toNat
    closed := mantissa % 2 = 0 }

/-- A decimal number, its coefficient times a power of ten. -/
structure Digits where
  coefficient : Nat
  exponent : Int
deriving DecidableEq, Repr

/-- Takes the zeros off the end of a coefficient. -/
def Digits.strip (coefficient : Nat) (exponent : Int) : Digits :=
  if coefficient ≠ 0 ∧ coefficient % 10 = 0 then strip (coefficient / 10) (exponent + 1)
  else ⟨coefficient, exponent⟩
termination_by coefficient
decreasing_by omega

/-- How many digits stand before the decimal point; below a tenth, minus the zeros behind it. -/
def magnitude (numerator denominator : Nat) : Int :=
  if denominator ≤ numerator then Precision.countDigits (numerator / denominator)
  else
    let zeros := Precision.countDigits (denominator / numerator)
    if numerator * Nat.pow 10 (zeros - 1) = denominator then 2 - zeros else 1 - zeros

namespace Interval

/-- Whether `n` grid steps of size `step` lie in the interval, whose ends are scaled by `scale`. -/
def holds (interval : Interval) (scale step n : Nat) : Bool :=
  if interval.closed then
    interval.low * scale ≤ n * step && n * step ≤ interval.high * scale
  else interval.low * scale < n * step && n * step < interval.high * scale

/-- The multiple of `10 ^ exponent` in the interval that is nearest to its value. -/
def onGrid (interval : Interval) (halfUp : Bool) (exponent : Int) : Option Digits :=
  let scale := Nat.pow 10 (-exponent).toNat
  let step := interval.denominator * Nat.pow 10 exponent.toNat
  let below := interval.value * scale / step
  let twice := 2 * (interval.value * scale % step)
  let up := step < twice || (step == twice && (halfUp || below % 2 == 1))
  match interval.holds scale step below, interval.holds scale step (below + 1) with
  | true, true => some (.strip (if up then below + 1 else below) exponent)
  | true, false => some (.strip below exponent)
  | false, true => some (.strip (below + 1) exponent)
  | false, false => none

/-- Tries up to `count` further digits behind the grid of `10 ^ exponent`. -/
def refine (interval : Interval) (halfUp : Bool) (exponent : Int) : Nat → Digits
  | 0 => ⟨0, exponent⟩
  | count + 1 =>
    match interval.onGrid halfUp exponent with
    | some digits => digits
    | none => interval.refine halfUp (exponent - 1) count

end Interval

/-- No double needs more significant digits than this. -/
def mostDigits : Nat := 17

/-- The shortest digits of a positive number. A tie between two goes up, or to the even one. -/
def Precision.shortest (precision : Precision) (halfUp : Bool) (mantissa : Nat) (exponent : Int) :
    Digits :=
  let interval := precision.interval mantissa exponent
  interval.refine halfUp (magnitude interval.value interval.denominator - 1) mostDigits

end ResumableCsv.Decimal
