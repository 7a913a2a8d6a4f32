import ResumableCsv.Record.Scan

/-!
Writing delimited records. A field is quoted only when it holds the delimiter, the quote or a line
terminator, a quote inside it is written twice, and a record that would leave no bytes is written as
an empty quoted field. What may not be torn apart comes in one piece.
-/

namespace ResumableCsv.Record

def needsQuotes (dialect : Dialect) (field : Bytes) : Bool :=
  field.any fun byte => byte == dialect.delimiter || byte == dialect.quote || isTerminator byte

def quotedPieces (dialect : Dialect) (field : Bytes) : List Bytes :=
  [dialect.quote] ::
    (field.map fun byte => if byte = dialect.quote then [byte, byte] else [byte]) ++
      [[dialect.quote]]

def fieldPieces (dialect : Dialect) (field : Bytes) : List Bytes :=
  if needsQuotes dialect field then quotedPieces dialect field else field.map fun byte => [byte]

def fieldsPieces (dialect : Dialect) : Record → List Bytes
  | [] => []
  | [field] => fieldPieces dialect field
  | field :: rest => fieldPieces dialect field ++ [dialect.delimiter] :: fieldsPieces dialect rest

/-- The pieces of a record and its terminator, in order. -/
def pieces (dialect : Dialect) (record : Record) : List Bytes :=
  match fieldsPieces dialect record with
  | [] => [[dialect.quote, dialect.quote], [lineFeed]]
  | written => written ++ [[lineFeed]]

/-- The text of a record with its terminator. -/
def encode (dialect : Dialect) (record : Record) : Bytes := (pieces dialect record).flatten

end ResumableCsv.Record
