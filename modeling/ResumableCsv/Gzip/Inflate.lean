import ResumableCsv.Fault
import ResumableCsv.Gzip.Checksum

/-!
Inflating a deflate stream: stored blocks, and blocks of canonical prefix codes with back
references. Whatever was produced before a fault is kept beside it.
-/

namespace ResumableCsv.Gzip

/-- A byte stream read bit by bit, least significant bit first. -/
structure BitSource where
  held : List Bool
  rest : Bytes

namespace BitSource

def bitsOf (byte : UInt8) : List Bool :=
  (List.range 8).map fun i => byte.toNat.testBit i

def next? (source : BitSource) : Except IoFault (Bool × BitSource) :=
  match source.held, source.rest with
  | bit :: held, rest => .ok (bit, ⟨held, rest⟩)
  | [], byte :: rest =>
    match bitsOf byte with
    | bit :: held => .ok (bit, ⟨held, rest⟩)
    | [] => .error .unexpectedEnd
  | [], [] => .error .unexpectedEnd

/-- Reads a number of `width` bits, lowest bit first. -/
def number : Nat → BitSource → Except IoFault (Nat × BitSource)
  | 0, source => .ok (0, source)
  | width + 1, source => do
    let (bit, source) ← source.next?
    let (high, source) ← number width source
    pure (bit.toNat + 2 * high, source)

def align (source : BitSource) : BitSource := { source with held := [] }

end BitSource

/-- The symbols of a canonical code, grouped by code length from one bit upward. -/
abbrev CodeTable := List (List Nat)

def CodeTable.ofLengths (lengths : List Nat) : CodeTable :=
  (List.range 15).map fun i =>
    lengths.zipIdx.filterMap fun (length, symbol) => if length = i + 1 then some symbol else none

/-- Reads one symbol; `first` is the smallest code of the length reached so far. -/
def decodeSymbol : CodeTable → Nat → Nat → BitSource → Except IoFault (Nat × BitSource)
  | [], _, _, _ => .error .corruptDeflate
  | symbols :: longer, code, first, source => do
    let (bit, source) ← source.next?
    let code := 2 * code + bit.toNat
    match if first ≤ code then symbols[code - first]? else none with
    | some symbol => pure (symbol, source)
    | none => decodeSymbol longer code (2 * (first + symbols.length)) source

def lengthBases : List (Nat × Nat) :=
  [(3, 0), (4, 0), (5, 0), (6, 0), (7, 0), (8, 0), (9, 0), (10, 0), (11, 1), (13, 1), (15, 1),
   (17, 1), (19, 2), (23, 2), (27, 2), (31, 2), (35, 3), (43, 3), (51, 3), (59, 3), (67, 4),
   (83, 4), (99, 4), (115, 4), (131, 5), (163, 5), (195, 5), (227, 5), (258, 0)]

def distanceBases : List (Nat × Nat) :=
  [(1, 0), (2, 0), (3, 0), (4, 0), (5, 1), (7, 1), (9, 2), (13, 2), (17, 3), (25, 3), (33, 4),
   (49, 4), (65, 5), (97, 5), (129, 6), (193, 6), (257, 7), (385, 7), (513, 8), (769, 8),
   (1025, 9), (1537, 9), (2049, 10), (3073, 10), (4097, 11), (6145, 11), (8193, 12), (12289, 12),
   (16385, 13), (24577, 13)]

def baseValue (bases : List (Nat × Nat)) (index : Nat) (source : BitSource) :
    Except IoFault (Nat × BitSource) :=
  match bases[index]? with
  | none => .error .corruptDeflate
  | some (base, width) => do
    let (extra, source) ← source.number width
    pure (base + extra, source)

/-- Repeats `length` bytes that start `distance` before the end of the output. -/
def copyBack (distance : Nat) : Nat → Array UInt8 → Array UInt8
  | 0, output => output
  | length + 1, output =>
    copyBack distance length (output.push ((output[output.size - distance]?).getD 0))

/-- Reads the distance of a back reference and appends the bytes it repeats. -/
def expand (distances : CodeTable) (length : Nat) (output : Array UInt8) (source : BitSource) :
    Except IoFault (Array UInt8 × BitSource) := do
  let (index, source) ← decodeSymbol distances 0 0 source
  let (distance, source) ← baseValue distanceBases index source
  if distance ≤ output.size then pure (copyBack distance length output, source)
  else .error .corruptDeflate

/-- The symbols of one compressed block up to its end mark. Every step takes at least one bit, so
the number of bits left bounds the steps. -/
def inflateSymbols (literals distances : CodeTable) :
    Nat → Array UInt8 → BitSource → Array UInt8 × Except IoFault BitSource
  | 0, output, _ => (output, .error .unexpectedEnd)
  | bits + 1, output, source =>
    match decodeSymbol literals 0 0 source with
    | .error fault => (output, .error fault)
    | .ok (symbol, source) =>
      if symbol < 256 then
        inflateSymbols literals distances bits (output.push (UInt8.ofNat symbol)) source
      else if symbol = 256 then (output, .ok source)
      else
        match baseValue lengthBases (symbol - 257) source with
        | .error fault => (output, .error fault)
        | .ok (length, source) =>
          match expand distances length output source with
          | .error fault => (output, .error fault)
          | .ok (output, source) => inflateSymbols literals distances bits output source

def fixedLiterals : CodeTable :=
  .ofLengths (List.replicate 144 8 ++ List.replicate 112 9 ++ List.replicate 24 7 ++
    List.replicate 8 8)

def fixedDistances : CodeTable := .ofLengths (List.replicate 30 5)

def lengthOrder : List Nat := [16, 17, 18, 0, 8, 7, 9, 6, 10, 5, 11, 4, 12, 3, 13, 2, 14, 1, 15]

def readWidths : Nat → BitSource → Except IoFault (List Nat × BitSource)
  | 0, source => .ok ([], source)
  | count + 1, source => do
    let (width, source) ← source.number 3
    let (widths, source) ← readWidths count source
    pure (width :: widths, source)

/-- Reads run-length coded code lengths until `wanted` of them are known; each step adds one or
more. The lengths are collected last first. -/
def readLengths (table : CodeTable) (wanted : Nat) :
    Nat → List Nat → BitSource → Except IoFault (List Nat × BitSource)
  | 0, _, _ => .error .corruptDeflate
  | steps + 1, lengths, source =>
    if lengths.length = wanted then .ok (lengths.reverse, source)
    else if wanted < lengths.length then .error .corruptDeflate
    else do
      let (symbol, source) ← decodeSymbol table 0 0 source
      match symbol, lengths with
      | 16, [] => .error .corruptDeflate
      | 16, last :: _ =>
        let (extra, source) ← source.number 2
        readLengths table wanted steps (List.replicate (3 + extra) last ++ lengths) source
      | 17, _ =>
        let (extra, source) ← source.number 3
        readLengths table wanted steps (List.replicate (3 + extra) 0 ++ lengths) source
      | 18, _ =>
        let (extra, source) ← source.number 7
        readLengths table wanted steps (List.replicate (11 + extra) 0 ++ lengths) source
      | length, _ => readLengths table wanted steps (length :: lengths) source

def readTables (source : BitSource) : Except IoFault (CodeTable × CodeTable × BitSource) := do
  let (literalCount, source) ← source.number 5
  let (distanceCount, source) ← source.number 5
  let (widthCount, source) ← source.number 4
  let (widths, source) ← readWidths (widthCount + 4) source
  let lengthOf := fun symbol => ((lengthOrder.zip widths).lookup symbol).getD 0
  let table := CodeTable.ofLengths ((List.range 19).map lengthOf)
  let wanted := literalCount + 257 + distanceCount + 1
  let (lengths, source) ← readLengths table wanted (wanted + 1) [] source
  pure (.ofLengths (lengths.take (literalCount + 257)),
    .ofLengths (lengths.drop (literalCount + 257)), source)

def inflateStored (output : Array UInt8) (source : BitSource) :
    Array UInt8 × Except IoFault BitSource :=
  match source.align.rest with
  | a :: b :: c :: d :: rest =>
    let size := ofLittleEndian [a, b]
    if size + ofLittleEndian [c, d] = 0xFFFF then
      let output := output ++ (rest.take size).toArray
      if size ≤ rest.length then (output, .ok ⟨[], rest.drop size⟩)
      else (output, .error .unexpectedEnd)
    else (output, .error .corruptDeflate)
  | _ => (output, .error .unexpectedEnd)

def inflateBlock (bits : Nat) (kind : Nat) (output : Array UInt8) (source : BitSource) :
    Array UInt8 × Except IoFault BitSource :=
  match kind with
  | 0 => inflateStored output source
  | 1 => inflateSymbols fixedLiterals fixedDistances bits output source
  | 2 =>
    match readTables source with
    | .error fault => (output, .error fault)
    | .ok (literals, distances, source) => inflateSymbols literals distances bits output source
  | _ => (output, .error .corruptDeflate)

/-- Block after block up to the one marked last; every block takes at least three bits. -/
def inflateBlocks : Nat → Array UInt8 → BitSource → Array UInt8 × Except IoFault BitSource
  | 0, output, _ => (output, .error .unexpectedEnd)
  | bits + 1, output, source =>
    match source.number 3 with
    | .error fault => (output, .error fault)
    | .ok (header, source) =>
      match inflateBlock (bits + 1) (header / 2) output source with
      | (output, .error fault) => (output, .error fault)
      | (output, .ok source) =>
        if header % 2 = 1 then (output, .ok source) else inflateBlocks bits output source

/-- The bytes of a deflate stream, and the input that follows it or the fault that ended it. -/
def inflate (content : Bytes) : Bytes × Except IoFault Bytes :=
  match inflateBlocks (8 * content.length + 1) #[] ⟨[], content⟩ with
  | (output, .ok source) => (output.toList, .ok source.rest)
  | (output, .error fault) => (output.toList, .error fault)

end ResumableCsv.Gzip
