import ResumableCsv.Selection.Basic
import ResumableCsv.Text.Numeral

/-!
Writing a selection as an expression: names between double quotes, positions counted from one.
-/

namespace ResumableCsv

/-- A quote or a backslash inside a quoted name follows a backslash. -/
def Selection.escaped (name : List Char) : List Char :=
  name.flatMap fun c => if c = '"' ∨ c = '\\' then ['\\', c] else [c]

def Selection.quotedName (name : String) : List Char :=
  '"' :: (Selection.escaped name.toList ++ ['"'])

def Selection.bracketed (occurrence : Nat) : List Char :=
  '[' :: (Text.decimal occurrence ++ [']'])

def ColumnKey.expression : ColumnKey → List Char
  | .named name => Selection.quotedName name
  | .nth name occurrence => Selection.quotedName name ++ Selection.bracketed occurrence
  | .position index => Text.decimal (index + 1)

def Selector.expression : Selector → List Char
  | .single key => key.expression
  | .indexed name occurrence => (ColumnKey.nth name occurrence).expression
  | .range first last => first.expression ++ '-' :: (last.map ColumnKey.expression).getD []

def Selection.expression (selection : Selection) : String :=
  String.ofList ((if selection.inverted then ['!'] else []) ++
    Text.join [','] (selection.selectors.map Selector.expression))

end ResumableCsv
