import ResumableCsv.Headers.Basic
import ResumableCsv.Selection.Parser

/-!
The columns a selection picks: positions in selector order, repeated as often as they are named, or
the ascending positions of all other columns when it is inverted.
-/

namespace ResumableCsv

/-- Ascending or descending, both ends included. -/
def inclusiveRange (first last : Nat) : List Nat :=
  if first ≤ last then List.range' first (last - first + 1)
  else (List.range' last (first - last + 1)).reverse

def Selector.indices (length : Nat) (resolve : ColumnKey → Except Error Nat) :
    Selector → Except Error (List Nat)
  | .single key => (resolve key).map fun index => [index]
  | .indexed name occurrence => (resolve (.nth name occurrence)).map fun index => [index]
  | .range first last => do
    let first ← resolve first
    match last with
    | some last => (resolve last).map (inclusiveRange first)
    | none =>
      if length = 0 then .error (.columnOutOfRange 0 length)
      else pure (inclusiveRange first (length - 1))

namespace Selection

def listed (length : Nat) (resolve : ColumnKey → Except Error Nat) :
    List Selector → Except Error (List Nat)
  | [] => .ok []
  | selector :: rest => do
    let indices ← selector.indices length resolve
    let others ← listed length resolve rest
    pure (indices ++ others)

def indices (selection : Selection) (length : Nat) (resolve : ColumnKey → Except Error Nat) :
    Except Error (List Nat) := do
  let indices ← listed length resolve selection.selectors
  if selection.inverted then pure ((List.range length).filter fun index => !indices.contains index)
  else pure indices

/-- Positions need no header row, names do. -/
def resolvePosition (length : Nat) : ColumnKey → Except Error Nat
  | .position index => if index < length then .ok index else .error (.columnOutOfRange index length)
  | key => .error (.headersRequired (.resolveColumn key))

/-- Picks columns by position alone. -/
def selectPositions (length : Nat) (text : String) : Except Error (List Nat) := do
  let selection ← parse text
  if selection.isPositional then selection.indices length (resolvePosition length)
  else .error (.headersRequired (.selectByName text))

end Selection

/-- Picks columns by a selection expression. -/
def Headers.select (headers : Headers) (text : String) : Except Error (List Nat) := do
  let selection ← Selection.parse text
  selection.indices headers.length headers.resolve

end ResumableCsv
