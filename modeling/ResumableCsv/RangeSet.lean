/-!
Sets of 64-bit numbers kept as ascending inclusive ranges, no two of them touching. A successor is
only taken of a number that has one.
-/

namespace ResumableCsv

structure RangeSet where
  ranges : List (UInt64 × UInt64)
deriving DecidableEq, Repr

namespace RangeSet

def empty : RangeSet := ⟨[]⟩

/-- Grows the range that ends just before the value or starts just after it, and joins both. -/
def insertInto (value : UInt64) : List (UInt64 × UInt64) → List (UInt64 × UInt64)
  | [] => [(value, value)]
  | (first, last) :: rest =>
    if value < first then
      if value + 1 = first then (value, last) :: rest else (value, value) :: (first, last) :: rest
    else if value ≤ last then (first, last) :: rest
    else if last + 1 = value then
      match rest with
      | [] => [(first, value)]
      | (next, final) :: more =>
        if value + 1 = next then (first, final) :: more else (first, value) :: (next, final) :: more
    else (first, last) :: insertInto value rest

def contains (set : RangeSet) (value : UInt64) : Bool :=
  set.ranges.any fun (first, last) => first ≤ value && value ≤ last

/-- Adds a value and tells whether it was missing. -/
def add (set : RangeSet) (value : UInt64) : Bool × RangeSet :=
  (!set.contains value, ⟨insertInto value set.ranges⟩)

def ofList (values : List UInt64) : RangeSet :=
  values.foldl (fun set value => (set.add value).2) empty

def count : List (UInt64 × UInt64) → Nat
  | [] => 0
  | (first, last) :: rest => last.toNat - first.toNat + 1 + count rest

/-- How many numbers the set holds. -/
def size (set : RangeSet) : Nat := count set.ranges

def isEmpty (set : RangeSet) : Bool := set.ranges.isEmpty

def display (set : RangeSet) : String :=
  ",".intercalate (set.ranges.map fun (first, last) =>
    if first = last then toString first else toString first ++ "-" ++ toString last)

end RangeSet

end ResumableCsv
