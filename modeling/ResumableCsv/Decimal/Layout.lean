import ResumableCsv.Decimal.Shortest

/-!
Decimal texts of binary numbers: where an exponent is written, how whole numbers end, and which way
a tie between two shortest texts goes are the decisions of a layout.
-/

namespace ResumableCsv.Decimal

structure Layout where
  /-- Whether a number is written without an exponent when its first digit would stand this many
  places before the point of `0.d`. -/
  positional : Int → Bool
  /-- What ends a whole number that is written without an exponent. -/
  wholeMark : String
  halfUp : Bool

/-- No exponent and no mark, a tie goes up. -/
def Layout.plain : Layout := ⟨fun _ => true, "", true⟩

/-- Whole numbers keep a point, exponents start at 10^16 and below 10^-5, a tie goes to even. -/
def Layout.document : Layout := ⟨fun point => -5 < point && point ≤ 16, ".0", false⟩

namespace Layout

def zeros (count : Nat) : String := String.ofList (List.replicate count '0')

def exponentText (exponent : Int) : String :=
  (if exponent < 0 then "e-" else "e+") ++ toString exponent.natAbs

/-- The text of `0.d * 10 ^ point` for the digits `d`. -/
def place (layout : Layout) (digits : List Char) (point : Int) : String :=
  if layout.positional point then
    if point ≤ 0 then "0." ++ zeros (-point).toNat ++ String.ofList digits
    else if digits.length ≤ point.toNat then
      String.ofList digits ++ zeros (point.toNat - digits.length) ++ layout.wholeMark
    else
      String.ofList (digits.take point.toNat) ++ "." ++ String.ofList (digits.drop point.toNat)
  else
    let fraction := if digits.length = 1 then [] else '.' :: digits.drop 1
    String.ofList (digits.take 1 ++ fraction) ++ exponentText (point - 1)

def render (layout : Layout) (precision : Precision) : Binary → String
  | .nan => "NaN"
  | .infinite negative => if negative then "-inf" else "inf"
  | .finite negative mantissa exponent =>
    let sign := if negative then "-" else ""
    if mantissa = 0 then sign ++ "0" ++ layout.wholeMark
    else
      let shortest := precision.shortest layout.halfUp mantissa exponent
      let digits := Nat.toDigits 10 shortest.coefficient
      sign ++ layout.place digits (digits.length + shortest.exponent)

end Layout

end ResumableCsv.Decimal
