/-
  Values as text.

  Texts stand for themselves, also inside arrays and objects; a moment without a date is
  `Invalid Date`.
-/
import ColumnQuery.Value.Basic
import ColumnQuery.Calendar.Iso

namespace ColumnQuery

namespace Value

def dateText (ms : Int) : String :=
  match Calendar.dateTime? ms with
  | some t => t.text
  | none => "Invalid Date"

mutual

/-- The text of a value. -/
def text : Value → String
  | null => "null"
  | boolean b => if b then "true" else "false"
  | number x => Number.text x
  | string s => s
  | date ms => dateText ms
  | array items => "[" ++ String.intercalate "," (itemTexts items) ++ "]"
  | object entries => "\x7b" ++ String.intercalate "," (entryTexts entries) ++ "\x7d"

def itemTexts : List Value → List String
  | [] => []
  | v :: vs => text v :: itemTexts vs

def entryTexts : List (String × Value) → List String
  | [] => []
  | (k, v) :: es => (k ++ ":" ++ text v) :: entryTexts es

end

end Value

end ColumnQuery
