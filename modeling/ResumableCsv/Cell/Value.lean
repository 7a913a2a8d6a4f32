import ResumableCsv.Column
import ResumableCsv.Json.Basic
import ResumableCsv.Text.Basic

/-!
Typed values and the cells they are written as. Lists are joined by a separator, and what is absent
has a text of its own.
-/

namespace ResumableCsv

structure CellOptions where
  pluralSeparator : String := "|"
  noneText : String := ""
  trueText : String := "true"
  falseText : String := "false"
deriving DecidableEq, Repr

inductive CellValue
  | text (content : String)
  | flag (value : Bool)
  | integer (value : Int)
  | real (precision : Decimal.Precision) (value : Decimal.Binary)
  | absent
  | present (value : CellValue)
  | list (items : List CellValue)
  /-- A document of which texts and flags are written as such. -/
  | json (value : Json)
  /-- A document that is written as a document, or a value that has no such form. -/
  | document (value : Option Json)

namespace CellOptions

def flagText (options : CellOptions) (value : Bool) : String :=
  if value then options.trueText else options.falseText

def jsonText (options : CellOptions) : Json → String
  | .null => options.noneText
  | .text content => content
  | .boolean value => options.flagText value
  | other => other.compact

def documentText (options : CellOptions) : Option Json → String
  | none | some .null => options.noneText
  | some document => document.compact

def joined (options : CellOptions) (cells : List String) : String :=
  String.ofList (Text.join options.pluralSeparator.toList (cells.map String.toList))

mutual

/-- The cell a value is written as. -/
def cell (options : CellOptions) : CellValue → String
  | .text content => content
  | .flag value => options.flagText value
  | .integer value => toString value
  | .real precision value => Decimal.Layout.plain.render precision value
  | .absent => options.noneText
  | .present value => options.cell value
  | .list items => options.joined (cells options items)
  | .json value => options.jsonText value
  | .document value => options.documentText value

def cells (options : CellOptions) : List CellValue → List String
  | [] => []
  | value :: rest => options.cell value :: cells options rest

end

end CellOptions

/-- A kind of rows: the names of their fields and how their values are written. -/
structure RecordType where
  fieldnames : List String
  options : CellOptions := {}

/-- The row a record of some field values stands for. -/
def RecordType.row (record : RecordType) (values : List CellValue) : Row :=
  record.options.cells values

end ResumableCsv
